import MicroVllm.Scheduler.Runs
import MicroVllm.Scheduler.Retention

/-! # What a move logs

Only three kinds of moves log more than routine: the one that submits a batch, the one
that adopts a cached prefix, and the one that retires a job.  A statement about every
event of a run has to be checked for those three.
-/

namespace MicroVllm

open Transition (Throughout)

/-- Events that submit, copy and retain nothing. -/
def Event.Routine : Event → Prop
  | .decode .. => False
  | .copySequence _ _ _ ok => ok = false
  | .index _ _ entry _ => entry.retained = false
  | _ => True

theorem Event.Routine.of_toSink {sink : SinkRef} {e : Event} (call : e.ToSink sink) : e.Routine := by
  cases e <;> trivial

theorem Event.Routine.of_eviction {e : Event} (eviction : e.Eviction) : e.Routine := by
  cases e <;> trivial

theorem SequenceState.finish_routine {σ : Type} {w : World σ} (state : SequenceState) (port : Port σ) :
    port.Adds Event.Routine (state.finish w port).2 :=
  (state.finish_adds port).mono fun _ => Event.Routine.of_toSink

theorem SequenceState.accept_routine {σ : Type} {w : World σ} {state state' : SequenceState}
    {step : GenStep} {port port' : Port σ} {goesOn : Bool}
    (accepted : state.accept w step port = (goesOn, state', port')) : port.Adds Event.Routine port' := by
  have adds := state.accept_adds (w := w) step port
  rw [accepted] at adds
  exact adds.mono fun _ => Event.Routine.of_toSink

namespace Port

variable {σ : Type} {ok : List Event → Event → Prop} {past : List Event}

/-- The history up to what the port has logged stays within `ok`. -/
def Heeds (ok : List Event → Event → Prop) (past : List Event) (port : Port σ) : Prop :=
  Throughout ok (past ++ port.log)

theorem Heeds.adds {P : Event → Prop} {port port' : Port σ} (heeds : port.Heeds ok past)
    (adds : port.Adds P port') (blind : ∀ before e, P e → ok before e) : port'.Heeds ok past := by
  obtain ⟨more, log, all⟩ := adds
  rw [Heeds, log, ← List.append_assoc]
  exact Throughout.append heeds fun before e member => blind before e (all e member)

theorem Heeds.snoc {port port' : Port σ} {e : Event} (heeds : port.Heeds ok past)
    (log : port'.log = port.log ++ [e]) (last : ok (past ++ port.log) e) : port'.Heeds ok past := by
  rw [Heeds, log, ← List.append_assoc]
  exact Throughout.snoc heeds last

end Port

namespace Continuous

variable {σ : Type} {w : World σ} {config : SchedulerConfig}

inductive Logs (w : World σ) (config : SchedulerConfig) (s s' : Continuous σ) : Prop where
  | routine (adds : s.port.Adds Event.Routine s'.port)
  | submits {result} (pc : s.pc = .build)
      (decoded : s.port.decode w (buildBatch w.caps.nBatch config s.active).items = (result, s'.port))
  | adopts {job hit port} (pc : s.pc = .reserve job)
      (found : (PrefixCache.hashPrefix job.state.prompt hit.nTokens, hit) ∈ s.prefixCache.pairs)
      (within : hit.nTokens ≤ job.state.prompt.length)
      (copied : s.port.copySequence w hit.seq job.state.seq (toPos hit.nTokens) = (.ok (), port))
      (adds : port.Adds Event.Routine s'.port)
  | retires {job} (active : job ∈ s.active) (finished : job.state.finished = true)
      (port : s'.port = (s.retire w config job).port)

theorem Move.logs {s s' : Continuous σ} {q q' : RequestQueue} (move : Move w config s q s' q') :
    Logs w config s s' := by
  cases move with
  | make pc next free begun | makeCrash pc next free begun => exact .routine (.begin begun trivial)
  | giveUp pc short evicted | reclaimDonor pc here full evicted =>
    exact .routine ((Scheduler.reclaimDonorBlocks_adds evicted).mono fun _ => Event.Routine.of_eviction)
  | reject =>
    have released : ∀ (port : Port σ) seq, port.Adds Event.Routine (port.releaseSequence w seq) :=
      fun port seq => .release _ _ trivial
    exact .routine (((SequenceState.finish_routine _ _).trans (released _ _)).trans
      (Scheduler.deliver_adds (fun _ _ _ => trivial) (fun _ _ => trivial) _ _))
  | defer => exact .routine ((Port.Adds.release _ _ trivial).trans (.note _ trivial))
  | placeFailed | place => exact .routine (.note _ trivial)
  | adopt pc fits same caching found positive within copied =>
    refine .adopts pc found within copied ?_
    exact (((Port.Adds.note _ trivial).trans (.note _ trivial)).trans (.note _ trivial)).trans
      (.note _ trivial)
  | adoptCrash pc fits same copied => exact .routine (.copy copied rfl)
  | decode pc something returned => exact .submits pc returned
  | decodeFail pc something threw => exact .submits pc threw
  | acceptFinish pc here accepted => 
    exact .routine ((SequenceState.accept_routine accepted).trans (SequenceState.finish_routine _ _))
  | acceptStarve pc here accepted | acceptGrow pc here accepted =>
    exact .routine (SequenceState.accept_routine accepted)
  | acceptPublish pc here accepted =>
    exact .routine ((SequenceState.accept_routine accepted).trans (.note _ rfl))
  | @sweepRetire starved before job after pc here finished =>
    exact .retires (show job ∈ s.active by rw [here]; simp) finished rfl
  | sweepLoop => exact .routine (.note _ trivial)
  | resolveFail pc here large failed =>
    subst failed
    exact .routine (SequenceState.finish_routine _ _)
  | preemptEvict =>
    exact .routine (((Port.Adds.release _ _ trivial).trans (.note _ trivial)).trans (.note _ trivial))
  | _ => exact .routine (.refl _)

end Continuous

end MicroVllm
