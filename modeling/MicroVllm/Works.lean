import MicroVllm.Generation
import MicroVllm.Scheduler.Logs

/-! # What happens to a sequence

The ways a scheduler can change the state of a sequence, each with the calls its sink hears.
Whatever loop drives it, a sequence goes from one state to the next by `Work`, and a property
that every kind of work keeps is kept by whole batches.  `O` is what is known of a state that is
failed for want of room.
-/

namespace MicroVllm

namespace Event

/-- Text for the given sink. -/
def TextTo (sink : SinkRef) : Event → Prop
  | .onText s _ => s = sink
  | _ => False

theorem TextTo.toSink {sink : SinkRef} {e : Event} (text : e.TextTo sink) : e.ToSink sink := by
  cases e with
  | onText => exact text
  | _ => cases text

/-- The event itself, if it is a call of the given sink. -/
def callTo (sink : SinkRef) (e : Event) : Option Event :=
  match e with
  | .onText s _ | .onFinish s _ _ | .onError s _ => if s = sink then some e else none
  | _ => none

theorem callTo_of_toSink {own : SinkRef} {e : Event} (call : e.ToSink own) (sink : SinkRef) :
    e.callTo sink = if own = sink then some e else none := by
  cases e with
  | onText | onFinish | onError =>
    cases call
    rfl
  | _ => cases call

theorem callTo_of_internal (sink : SinkRef) (e : Event) (inside : e.Internal) :
    e.callTo sink = none := by
  cases e <;> first | rfl | cases inside

end Event

/-- The calls a sink has heard. -/
def callsTo (sink : SinkRef) (log : List Event) : List Event := log.filterMap (Event.callTo sink)

@[simp] theorem callsTo_nil (sink : SinkRef) : callsTo sink [] = [] := rfl

@[simp] theorem callsTo_append (sink : SinkRef) (a b : List Event) :
    callsTo sink (a ++ b) = callsTo sink a ++ callsTo sink b := List.filterMap_append ..

theorem callsTo_own {sink : SinkRef} {calls : List Event} (own : ∀ e ∈ calls, e.ToSink sink) :
    callsTo sink calls = calls := by
  induction calls with
  | nil => rfl
  | cons e calls ih =>
    rw [callsTo, List.filterMap_cons, Event.callTo_of_toSink (own e List.mem_cons_self), if_pos rfl]
    exact congrArg _ (ih fun e member => own e (List.mem_cons_of_mem _ member))

theorem callsTo_other {own sink : SinkRef} {calls : List Event} (other : sink ≠ own)
    (theirs : ∀ e ∈ calls, e.ToSink own) : callsTo sink calls = [] := by
  apply List.filterMap_eq_nil_iff.mpr
  intro e member
  rw [Event.callTo_of_toSink (theirs e member), if_neg (Ne.symm other)]

namespace SequenceState

variable {σ : Type} {w : World σ}

/-! ## The calls of a sink -/

/-- The call that tells the sink how the sequence ended. -/
def outcome (s : SequenceState) : Event :=
  if s.reason = .error ∨ s.reason = .contextOverflow then .onError s.sink s.error
  else .onFinish s.sink s.reason s.usage

theorem outcome_toSink (s : SequenceState) : s.outcome.ToSink s.sink := by
  unfold outcome
  split <;> rfl

/-- What a sink hears when `finish` is called: nothing the second time. -/
def Closing (s : SequenceState) (calls : List Event) : Prop :=
  if s.notified then calls = []
  else ∃ texts, (∀ e ∈ texts, e.TextTo s.sink) ∧ calls = texts ++ [s.outcome]

theorem Closing.toSink {s : SequenceState} {calls : List Event} (closing : s.Closing calls) :
    ∀ e ∈ calls, e.ToSink s.sink := by
  unfold Closing at closing
  split at closing
  · simp [closing]
  · obtain ⟨texts, all, rfl⟩ := closing
    intro e member
    rcases List.mem_append.mp member with text | last
    · exact (all e text).toSink
    · rw [List.mem_singleton.mp last]
      exact s.outcome_toSink

theorem flushUpto_texts (s : SequenceState) (upto : Nat) (port : Port σ) :
    port.Adds (Event.TextTo s.sink) (s.flushUpto w upto port).2 := by
  unfold flushUpto
  split
  · exact .one rfl rfl
  · exact .refl port

theorem accept_of_finished {s : SequenceState} (finished : s.finished = true) (step : GenStep)
    (port : Port σ) : s.accept w step port = (false, s, port) := by
  rw [accept, if_pos finished]

/-- While it is fed tokens a sequence only sends text, and none once it has finished. -/
theorem accept_calls {s s' : SequenceState} {step : GenStep} {port port' : Port σ} {goesOn : Bool}
    (accepted : s.accept w step port = (goesOn, s', port')) :
    ∃ calls, port'.log = port.log ++ calls ∧ (∀ e ∈ calls, e.TextTo s.sink) ∧
      (s.finished = true → calls = []) := by
  by_cases finished : s.finished = true
  · rw [accept_of_finished finished] at accepted
    cases accepted
    exact ⟨[], by simp⟩
  · have texts : port.Adds (Event.TextTo s.sink) (s.accept w step port).2.2 := by
      rw [accept, if_neg finished]
      split
      · exact .refl port
      · split
        · exact .refl port
        · simp only
          split
          · exact flushUpto_texts (s.append (w.piece step.token)) _ port
          · have first := flushUpto_texts (w := w) (s.append (w.piece step.token))
              (s.append (w.piece step.token)).safePrefix port
            have sink := (flushUpto_same (w := w) (s.append (w.piece step.token))
              (s.append (w.piece step.token)).safePrefix port).sink
            split
            · apply first.trans
              have second := flushUpto_texts (w := w)
                ((s.append (w.piece step.token)).flushUpto w
                  (s.append (w.piece step.token)).safePrefix port).1
              rw [sink] at second
              exact second _ _
            · exact first
    rw [accepted] at texts
    obtain ⟨calls, log, all⟩ := texts
    exact ⟨calls, log, all, fun done => absurd done finished⟩

theorem finish_calls (s : SequenceState) (port : Port σ) :
    ∃ calls, (s.finish w port).2.log = port.log ++ calls ∧ s.Closing calls := by
  unfold finish Closing
  split
  · exact ⟨[], (List.append_nil _).symm, rfl⟩
  · simp only [outcome]
    split
    · exact ⟨_, rfl, [], by simp, rfl⟩
    · split
      · obtain ⟨texts, log, all⟩ := flushUpto_texts (w := w)
          { s with notified := true, finished := true } s.text.length port
        rw [flushUpto_state]
        refine ⟨texts ++ [.onFinish s.sink s.reason s.usage], ?_, texts, all, rfl⟩
        simp only [Port.onFinish, log, List.append_assoc]
        rfl
      · exact ⟨_, rfl, [], by simp, rfl⟩

/-! ## Work on a sequence -/

inductive Work (w : World σ) (O : SequenceState → Prop) (s : SequenceState) :
    List Event → SequenceState → Prop where
  | chunk {take} (unfinished : s.finished = false) : Work w O s [] (s.takePrefillChunk take).2
  | adopt {nTokens} (unfinished : s.finished = false) : Work w O s [] (s.adoptCachedPrefix nTokens)
  | fail {message} (unfinished : s.finished = false) : Work w O s [] (s.fail message)
  | overflow {message} (unfinished : s.finished = false) (short : O s) :
      Work w O s [] (s.fail message .contextOverflow)
  | accept {step goesOn s' calls} (accepts : s.Accepts w step goesOn s')
      (texts : ∀ e ∈ calls, e.TextTo s.sink) (heard : s.finished = true → calls = []) :
      Work w O s calls s'
  | close {calls} (finished : s.finished = true) (closing : s.Closing calls) :
      Work w O s calls s.closed

inductive Works (w : World σ) (O : SequenceState → Prop) (s : SequenceState) :
    List Event → SequenceState → Prop where
  | refl : Works w O s [] s
  | tail {calls t more u} (earlier : Works w O s calls t) (last : Work w O t more u) :
      Works w O s (calls ++ more) u

variable {O : SequenceState → Prop} {s t u : SequenceState} {calls more : List Event}

theorem closed_same (s : SequenceState) : s.SameRequest s.closed := by
  unfold closed
  split
  · exact .refl s
  · split <;> exact ⟨⟨rfl, rfl, rfl, rfl, rfl⟩, rfl⟩

theorem Work.same (work : Work w O s calls t) : s.SameOrigin t := by
  cases work with
  | chunk => exact takePrefillChunk_same s _
  | adopt => exact adoptCachedPrefix_same s _
  | fail => exact (fail_same s _ _).toSameOrigin
  | overflow => exact (fail_same s _ _).toSameOrigin
  | accept accepts => exact accepts.same.toSameOrigin
  | close => exact (closed_same s).toSameOrigin

namespace Works

theorem one (work : Work w O s calls t) : Works w O s calls t := .tail .refl work

theorem two (first : Work w O s calls t) (second : Work w O t more u) : Works w O s (calls ++ more) u :=
  .tail (.one first) second

theorem trans (first : Works w O s calls t) (second : Works w O t more u) :
    Works w O s (calls ++ more) u := by
  induction second with
  | refl => rwa [List.append_nil]
  | tail _ last ih =>
    rw [← List.append_assoc]
    exact ih.tail last

theorem same (works : Works w O s calls t) : s.SameOrigin t := by
  induction works with
  | refl => exact .refl s
  | tail _ last ih => exact ih.trans last.same

theorem mono {O' : SequenceState → Prop} (weaker : ∀ t, O t → O' t) (works : Works w O s calls t) :
    Works w O' s calls t := by
  induction works with
  | refl => exact .refl
  | tail _ last ih =>
    apply ih.tail
    cases last with
    | chunk unfinished => exact .chunk unfinished
    | adopt unfinished => exact .adopt unfinished
    | fail unfinished => exact .fail unfinished
    | overflow unfinished short => exact .overflow unfinished (weaker _ short)
    | accept accepts texts heard => exact .accept accepts texts heard
    | close finished closing => exact .close finished closing

/-- The rule: what every kind of work keeps. -/
theorem invariant {P : List Event → SequenceState → Prop} {past : List Event}
    (works : Works w O s calls t) (initially : P past s)
    (kept : ∀ past s calls t, P past s → Work w O s calls t → P (past ++ calls) t) :
    P (past ++ calls) t := by
  induction works with
  | refl => rwa [List.append_nil]
  | tail _ last ih =>
    rw [← List.append_assoc]
    exact kept _ _ _ _ ih last

end Works

end SequenceState

end MicroVllm
