import MicroVllm.Scheduler.Members

/-! # What the members log

Every member function only appends to the log.  `Adds P` says that what it appends
satisfies `P`, and a reading of the log that is blind to `P` (`List.filterMap`) is then
the same before and after.
-/

namespace MicroVllm

namespace Event

/-- A call of the given sink. -/
def ToSink (sink : SinkRef) : Event → Prop
  | .onText s _ | .onFinish s _ _ | .onError s _ => s = sink
  | _ => False

/-- What keeping and giving up cached prefixes logs. -/
def Internal : Event → Prop
  | .stat .admitted _ => False
  | .beginSequence .. | .releaseSequence _ | .copySequence .. | .stat .. | .index .. => True
  | _ => False

/-- What is said of donors and of the entries of the prefix cache. -/
def Caching : Event → Prop
  | .beginSequence .. | .releaseSequence _ | .copySequence .. | .index .. => True
  | .stat .donorsRetained _ | .stat .donorEvictions _ | .stat .donorsHeld _ => True
  | _ => False

theorem Caching.internal {e : Event} (caching : e.Caching) : e.Internal := by
  cases e with
  | stat stat => cases stat <;> trivial
  | _ => trivial

/-- What giving up a donor logs. -/
def Eviction : Event → Prop
  | .releaseSequence _ | .stat .donorEvictions _ | .stat .donorsHeld _ => True
  | _ => False

theorem Eviction.caching {e : Event} (eviction : e.Eviction) : e.Caching := by
  cases e with
  | stat stat => cases stat <;> trivial
  | _ => trivial

end Event

namespace Port

variable {σ : Type} {w : World σ} {P : Event → Prop}

def Adds (P : Event → Prop) (port port' : Port σ) : Prop :=
  ∃ more, port'.log = port.log ++ more ∧ ∀ e ∈ more, P e

theorem log_begin {port port' : Port σ} {seq : Nat} {params : SamplingParams}
    {result : Except String Unit} (begun : port.beginSequence w seq params = (result, port')) :
    port'.log = port.log ++ [.beginSequence seq params result.isOk] := by
  cases begun
  rfl

theorem log_copy {port port' : Port σ} {src dst : Nat} {n : Int} {result : Except String Unit}
    (copied : port.copySequence w src dst n = (result, port')) :
    port'.log = port.log ++ [.copySequence src dst n result.isOk] := by
  cases copied
  rfl

theorem log_decode {port port' : Port σ} {items : List BatchItem}
    {result : Except String (List GenStep)} (decoded : port.decode w items = (result, port')) :
    port'.log = port.log ++ [.decode items result.isOk] := by
  cases decoded
  rfl

namespace Adds

theorem refl (port : Port σ) : Adds P port port := ⟨[], by simp, by simp⟩

theorem trans {a b c : Port σ} (first : Adds P a b) (second : Adds P b c) : Adds P a c := by
  obtain ⟨more, log, all⟩ := first
  obtain ⟨more', log', all'⟩ := second
  refine ⟨more ++ more', by rw [log', log, List.append_assoc], ?_⟩
  intro e member
  rcases List.mem_append.mp member with early | late
  · exact all e early
  · exact all' e late

theorem mono {Q : Event → Prop} {a b : Port σ} (adds : Adds P a b) (weaker : ∀ e, P e → Q e) :
    Adds Q a b := by
  obtain ⟨more, log, all⟩ := adds
  exact ⟨more, log, fun e member => weaker e (all e member)⟩

theorem one {port port' : Port σ} {e : Event} (log : port'.log = port.log ++ [e]) (holds : P e) :
    Adds P port port' :=
  ⟨[e], log, by simpa using holds⟩

theorem note (port : Port σ) {e : Event} (holds : P e) : Adds P port (port.note e) := one rfl holds

theorem begin {port port' : Port σ} {seq : Nat} {params : SamplingParams}
    {result : Except String Unit} (begun : port.beginSequence w seq params = (result, port'))
    (holds : P (.beginSequence seq params result.isOk)) : Adds P port port' := by
  cases begun
  exact one rfl holds

theorem copy {port port' : Port σ} {src dst : Nat} {n : Int} {result : Except String Unit}
    (copied : port.copySequence w src dst n = (result, port'))
    (holds : P (.copySequence src dst n result.isOk)) : Adds P port port' := by
  cases copied
  exact one rfl holds

theorem release (port : Port σ) (seq : Nat) (holds : P (.releaseSequence seq)) :
    Adds P port (port.releaseSequence w seq) := one rfl holds

theorem filterMap_eq {α : Type} {f : Event → Option α} {port port' : Port σ}
    (adds : Adds P port port') (blind : ∀ e, P e → f e = none) :
    port'.log.filterMap f = port.log.filterMap f := by
  obtain ⟨more, log, all⟩ := adds
  rw [log, List.filterMap_append, List.filterMap_eq_nil_iff.mpr fun e member => blind e (all e member),
    List.append_nil]

end Adds

/-! ## Readings of the log -/

section Readings

variable {α : Type} (f : Event → Option α)

@[simp] theorem filterMap_note (port : Port σ) (e : Event) :
    (port.note e).log.filterMap f = port.log.filterMap f ++ (f e).toList := by
  rw [note, List.filterMap_append]
  cases read : f e <;> simp [read]

@[simp] theorem filterMap_release (port : Port σ) (seq : Nat) :
    (port.releaseSequence w seq).log.filterMap f =
      port.log.filterMap f ++ (f (.releaseSequence seq)).toList :=
  filterMap_note f port (.releaseSequence seq)

theorem filterMap_begin {port port' : Port σ} {seq : Nat} {params : SamplingParams}
    {result : Except String Unit} (begun : port.beginSequence w seq params = (result, port')) :
    port'.log.filterMap f =
      port.log.filterMap f ++ (f (.beginSequence seq params result.isOk)).toList := by
  cases begun
  exact filterMap_note f port _

theorem filterMap_copy {port port' : Port σ} {src dst : Nat} {n : Int} {result : Except String Unit}
    (copied : port.copySequence w src dst n = (result, port')) :
    port'.log.filterMap f = port.log.filterMap f ++ (f (.copySequence src dst n result.isOk)).toList := by
  cases copied
  exact filterMap_note f port _

theorem filterMap_decode {port port' : Port σ} {items : List BatchItem}
    {result : Except String (List GenStep)} (decoded : port.decode w items = (result, port')) :
    port'.log.filterMap f = port.log.filterMap f ++ (f (.decode items result.isOk)).toList := by
  cases decoded
  exact filterMap_note f port _

end Readings

end Port

namespace SequenceState

variable {σ : Type} {w : World σ}

theorem flushUpto_adds (s : SequenceState) (upto : Nat) (port : Port σ) :
    port.Adds (Event.ToSink s.sink) (s.flushUpto w upto port).2 := by
  unfold flushUpto
  split
  · exact .one rfl rfl
  · exact .refl port

theorem accept_adds (s : SequenceState) (step : GenStep) (port : Port σ) :
    port.Adds (Event.ToSink s.sink) (s.accept w step port).2.2 := by
  unfold accept
  split
  · exact .refl port
  · split
    · exact .refl port
    · split
      · exact .refl port
      · simp only
        split
        · exact flushUpto_adds (s.append (w.piece step.token)) _ port
        · have first := flushUpto_adds (w := w) (s.append (w.piece step.token))
            (s.append (w.piece step.token)).safePrefix port
          have sink := (flushUpto_same (w := w) (s.append (w.piece step.token))
            (s.append (w.piece step.token)).safePrefix port).sink
          split
          · refine first.trans ?_
            have second := flushUpto_adds (w := w)
              ((s.append (w.piece step.token)).flushUpto w
                (s.append (w.piece step.token)).safePrefix port).1
            rw [sink] at second
            exact second _ _
          · exact first

theorem finish_adds (s : SequenceState) (port : Port σ) :
    port.Adds (Event.ToSink s.sink) (s.finish w port).2 := by
  unfold finish
  split
  · exact .refl port
  · simp only
    split
    · exact .one rfl rfl
    · split
      · have flushed := flushUpto_adds (w := w) { s with notified := true, finished := true }
          s.text.length port
        have sink := (flushUpto_same (w := w) { s with notified := true, finished := true }
          s.text.length port).sink
        exact flushed.trans (.one rfl sink)
      · exact .one rfl rfl

end SequenceState

namespace Scheduler

variable {σ : Type} {w : World σ} {config : SchedulerConfig}

theorem releaseDonor_adds (donor : Entry) (s : Scheduler σ) :
    s.port.Adds Event.Eviction (releaseDonor w donor s).port :=
  ((Port.Adds.one rfl trivial).trans (.note _ trivial)).trans (.note _ trivial)

theorem reclaimDonorBlocks_adds {s s' : Scheduler σ} (evicted : s.reclaimDonorBlocks w = some s') :
    s.port.Adds Event.Eviction s'.port := by
  simp only [reclaimDonorBlocks] at evicted
  split at evicted
  · cases evicted
  · cases evicted
    exact releaseDonor_adds _ _

theorem takeSlot_adds {s s' : Scheduler σ} {slot : Nat} (taken : s.takeSlot w = some (slot, s')) :
    s.port.Adds Event.Eviction s'.port := by
  simp only [takeSlot] at taken
  split at taken
  · cases taken
    exact .refl _
  · split at taken
    · cases taken
    · rename_i evicted
      have added := reclaimDonorBlocks_adds evicted
      split at taken
      · cases taken
      · cases taken
        exact added

end Scheduler

end MicroVllm
