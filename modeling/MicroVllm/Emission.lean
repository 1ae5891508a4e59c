import MicroVllm.Scheduler.Logs

/-! # Streamed text

What a sink has been sent, read off the log, against what a sequence counts as emitted.
`Emits` relates two stages of a sequence: what the second has emitted beyond the first
is what went to its sink in between, and nothing went to any other.
-/

namespace MicroVllm

/-- The text an event sends to the given sink. -/
def Event.deltaTo (sink : SinkRef) : Event → Option Text
  | .onText s delta => if s = sink then some delta else none
  | _ => none

/-- Everything sent to a sink, in order. -/
def streamed (sink : SinkRef) (log : List Event) : Text :=
  (log.filterMap (Event.deltaTo sink)).flatten

@[simp] theorem streamed_nil (sink : SinkRef) : streamed sink [] = [] := rfl

@[simp] theorem streamed_append (sink : SinkRef) (a b : List Event) :
    streamed sink (a ++ b) = streamed sink a ++ streamed sink b := by
  simp [streamed, List.filterMap_append]

/-! ## Where a stop string can be -/

theorem findText_le {pattern text : Text} {n : Nat} (found : findText pattern text = some n) :
    n ≤ text.length := by
  induction text generalizing n with
  | nil =>
    simp only [findText] at found
    split at found <;> simp_all
  | cons byte rest ih =>
    simp only [findText] at found
    split at found
    · cases found
      exact Nat.zero_le _
    · obtain ⟨m, inner, rfl⟩ := Option.map_eq_some_iff.mp found
      have bound := ih inner
      rw [List.length_cons]
      omega

theorem minPos_le {bound : Nat} {a b : Option Nat} (first : ∀ n, a = some n → n ≤ bound)
    (second : ∀ n, b = some n → n ≤ bound) : ∀ n, minPos a b = some n → n ≤ bound := by
  intro n found
  cases a with
  | none => exact second n found
  | some x =>
    have xBound := first x rfl
    cases b with
    | none =>
      cases found
      exact xBound
    | some y =>
      simp only [minPos, Option.some.injEq] at found
      omega

theorem earliestStop_le {text : Text} {stops : List Text} {n : Nat}
    (found : earliestStop text stops = some n) : n ≤ text.length := by
  have fold : ∀ (stops : List Text) best, (∀ n, best = some n → n ≤ text.length) →
      ∀ n, stops.foldl (fun best stop =>
        if stop = [] then best else minPos best (findText stop text)) best = some n →
        n ≤ text.length := by
    intro stops
    induction stops with
    | nil => exact fun best bounded => bounded
    | cons stop stops ih =>
      intro best bounded
      rw [List.foldl_cons]
      apply ih
      split
      · exact bounded
      · exact minPos_le bounded fun n => findText_le
  exact fold stops none (by simp) n found

namespace SequenceState

variable {σ : Type} {w : World σ}

theorem safePrefix_le (s : SequenceState) : s.safePrefix ≤ s.text.length := by
  unfold safePrefix
  split
  · exact Nat.le_refl _
  · split <;> omega

/-! ## Emitting -/

/-- Every emitted byte is a byte of the text. -/
def Bounded (s : SequenceState) : Prop := s.emitted ≤ s.text.length

structure Emits (s : SequenceState) (port : Port σ) (s' : SequenceState) (port' : Port σ) : Prop where
  bounded : s'.Bounded
  sink : s'.sink = s.sink
  own : ∃ delta, s'.emittedText = s.emittedText ++ delta ∧
    streamed s.sink port'.log = streamed s.sink port.log ++ delta
  others : ∀ sink, sink ≠ s.sink → streamed sink port'.log = streamed sink port.log

namespace Emits

theorem refl {s : SequenceState} (bounded : s.Bounded) (port : Port σ) : Emits s port s port :=
  ⟨bounded, rfl, ⟨[], by simp, by simp⟩, fun _ _ => rfl⟩

theorem trans {s t u : SequenceState} {a b c : Port σ} (first : Emits s a t b) (second : Emits t b u c) :
    Emits s a u c := by
  obtain ⟨delta, text, sent⟩ := first.own
  obtain ⟨delta', text', sent'⟩ := second.own
  refine ⟨second.bounded, second.sink.trans first.sink, ⟨delta ++ delta', ?_, ?_⟩, ?_⟩
  · rw [text', text, List.append_assoc]
  · rw [first.sink] at sent'
    rw [sent', sent, List.append_assoc]
  · intro sink other
    rw [second.others sink (by rw [first.sink]; exact other), first.others sink other]

/-- A change that keeps what is emitted. -/
theorem still {s s' : SequenceState} {port port' : Port σ} (bounded : s'.Bounded)
    (sink : s'.sink = s.sink) (text : s'.emittedText = s.emittedText)
    (silent : ∀ sink, streamed sink port'.log = streamed sink port.log) : Emits s port s' port' :=
  ⟨bounded, sink, ⟨[], by simp [text], by simp [silent]⟩, fun sink _ => silent sink⟩

end Emits

theorem flushUpto_emits {s : SequenceState} {upto : Nat} (bounded : s.Bounded)
    (within : upto ≤ s.text.length) (port : Port σ) :
    Emits s port (s.flushUpto w upto port).1 (s.flushUpto w upto port).2 := by
  unfold flushUpto
  split
  · rename_i more
    refine ⟨within, rfl, ⟨(s.text.drop s.emitted).take (upto - s.emitted), ?_, ?_⟩, ?_⟩
    · simp only [emittedText]
      rw [← List.take_add]
      congr 1
      omega
    · simp [Port.onText, streamed, Event.deltaTo]
    · intro sink other
      simp [Port.onText, streamed, Event.deltaTo, other.symm]
  · exact .refl bounded port

theorem append_emits {s : SequenceState} (bounded : s.Bounded) (piece : Text) (port : Port σ) :
    Emits s port (s.append piece) port := by
  unfold Bounded at bounded
  refine .still ?_ rfl ?_ fun _ => rfl
  · simp only [Bounded, append, List.length_append]
    omega
  · exact List.take_append_of_le_length bounded

theorem stopWith_emits {s : SequenceState} (bounded : s.Bounded) (reason : FinishReason)
    (port : Port σ) : Emits s port (s.stopWith reason) port :=
  .still bounded rfl rfl fun _ => rfl

theorem fail_emits {s : SequenceState} (bounded : s.Bounded) (message : String)
    (reason : FinishReason) (port : Port σ) : Emits s port (s.fail message reason) port :=
  .still bounded rfl rfl fun _ => rfl

theorem accept_emits {s s' : SequenceState} {step : GenStep} {port port' : Port σ} {goesOn : Bool}
    (bounded : s.Bounded) (accepted : s.accept w step port = (goesOn, s', port')) :
    Emits s port s' port' := by
  have emits : Emits s port (s.accept w step port).2.1 (s.accept w step port).2.2 := by
    unfold accept
    split
    · exact .refl bounded port
    · split
      · exact stopWith_emits bounded _ port
      · split
        · exact stopWith_emits bounded _ port
        · have appended := append_emits bounded (w.piece step.token) port
          simp only
          split
          · rename_i stopAt found
            have flushed := flushUpto_emits (w := w) appended.bounded (earliestStop_le found) port
            exact (appended.trans flushed).trans (stopWith_emits flushed.bounded _ _)
          · have flushed := flushUpto_emits (w := w) appended.bounded (safePrefix_le _) port
            split
            · -- a cancelled sequence sends the tail it held back
              have rest := flushUpto_emits (w := w) flushed.bounded (Nat.le_refl _)
                ((s.append (w.piece step.token)).flushUpto w
                  (s.append (w.piece step.token)).safePrefix port).2
              exact ((appended.trans flushed).trans rest).trans (stopWith_emits rest.bounded _ _)
            · exact (appended.trans flushed).trans (.still flushed.bounded rfl rfl fun _ => rfl)
  rwa [accepted] at emits

theorem finish_emits {s : SequenceState} (bounded : s.Bounded) (port : Port σ) :
    Emits s port (s.finish w port).1 (s.finish w port).2 := by
  unfold finish
  split
  · exact .refl bounded port
  · have noted : Emits s port { s with notified := true, finished := true } port :=
      .still bounded rfl rfl fun _ => rfl
    have closing : ∀ {t : SequenceState} {port port' : Port σ} {e : Event}, t.Bounded →
        (∀ sink, e.deltaTo sink = none) → port'.log = port.log ++ [e] → Emits t port t port' := by
      intro t port port' e bounded silent log
      refine .still bounded rfl rfl fun sink => ?_
      rw [log]
      simp [streamed, silent sink]
    simp only
    split
    · exact noted.trans (closing noted.bounded (fun _ => rfl) rfl)
    · split
      · have flushed := flushUpto_emits (w := w) noted.bounded (Nat.le_refl _) port
        exact (noted.trans flushed).trans (closing flushed.bounded (fun _ => rfl) rfl)
      · exact noted.trans (closing noted.bounded (fun _ => rfl) rfl)

/-- A failure is told to the sink without any text. -/
theorem finish_of_failed {s : SequenceState} (failed : s.reason = .error ∨ s.reason = .contextOverflow)
    (port : Port σ) : (s.finish w port).1.emittedText = s.emittedText ∧
      ∀ sink, streamed sink (s.finish w port).2.log = streamed sink port.log := by
  unfold finish
  split
  · exact ⟨rfl, fun _ => rfl⟩
  · simp only
    rw [if_pos failed]
    exact ⟨rfl, fun sink => by simp [Port.onError, streamed, Event.deltaTo]⟩

end SequenceState

end MicroVllm
