import MicroVllm.Scheduler.Books
import MicroVllm.Scheduler.Delivery

/-! # The counters

What the scheduler counts is read off its log.  A move of the continuous loop changes the counters
and the number of active jobs in one of five ways (`Counts`): not at all, for an admission, a
preemption, a retirement or a rejection.  The balance of the counters follows by adding these up
along a run.  Rejections leave no counter behind, so they are counted beside the run.
-/

namespace MicroVllm

/-! ## Reading the counters -/

/-- What an event adds to a counter. -/
def Event.amount? (stat : Stat) : Event → Option Nat
  | .stat s n => if s = stat then some n else none
  | _ => none

/-- The value of a counter after these events. -/
def total (stat : Stat) (log : List Event) : Nat := (log.filterMap (Event.amount? stat)).sum

/-- The results that promises were fulfilled with. -/
def delivered (log : List Event) : List GenResult := (log.filterMap Event.result?).map Prod.snd

/-- The events the balance is about. -/
def Event.counted? : Event → Option Event
  | .stat .admitted n => some (.stat .admitted n)
  | .stat .completed n => some (.stat .completed n)
  | .stat .preemptions n => some (.stat .preemptions n)
  | .stat .promptTokens n => some (.stat .promptTokens n)
  | .stat .completionTokens n => some (.stat .completionTokens n)
  | .stat .e2eLatency n => some (.stat .e2eLatency n)
  | .setValue id result => some (.setValue id result)
  | _ => none

theorem Event.counted?_of_toSink (sink : SinkRef) (e : Event) (call : e.ToSink sink) :
    e.counted? = none := by
  cases e <;> first | rfl | cases call

theorem Event.counted?_of_caching (e : Event) (caching : e.Caching) : e.counted? = none := by
  cases e with
  | stat stat => cases stat <;> first | rfl | cases caching
  | _ => first | rfl | cases caching

@[simp] theorem total_nil (stat : Stat) : total stat [] = 0 := rfl

@[simp] theorem total_stat (stat s : Stat) (n : Nat) (log : List Event) :
    total stat (.stat s n :: log) = (if s = stat then n else 0) + total stat log := by
  rw [total, List.filterMap_cons, Event.amount?]
  split <;> simp_all [total]

@[simp] theorem total_setValue (stat : Stat) (id : Nat) (result : GenResult) (log : List Event) :
    total stat (.setValue id result :: log) = total stat log := rfl

@[simp] theorem delivered_nil : delivered [] = [] := rfl

@[simp] theorem delivered_stat (stat : Stat) (n : Nat) (log : List Event) :
    delivered (.stat stat n :: log) = delivered log := rfl

@[simp] theorem delivered_setValue (id : Nat) (result : GenResult) (log : List Event) :
    delivered (.setValue id result :: log) = result :: delivered log := rfl

@[simp] theorem total_append (stat : Stat) (log log' : List Event) :
    total stat (log ++ log') = total stat log + total stat log' := by
  rw [total, List.filterMap_append, List.sum_append, total, total]

@[simp] theorem delivered_append (log log' : List Event) :
    delivered (log ++ log') = delivered log ++ delivered log' := by
  rw [delivered, List.filterMap_append, List.map_append, delivered, delivered]

/-- The counters that the balance is about depend on the events it is about. -/
theorem total_counted (stat : Stat) (counted : ∀ n, (Event.stat stat n).counted? = some (.stat stat n))
    (log : List Event) : total stat (log.filterMap Event.counted?) = total stat log := by
  rw [total, total, List.filterMap_filterMap]
  congr 2
  funext e
  cases e with
  | stat s n =>
    by_cases same : s = stat
    · rw [same, counted n]
      rfl
    · cases s <;> simp [Event.counted?, Event.amount?, same]
  | _ => rfl

theorem delivered_counted (log : List Event) : delivered (log.filterMap Event.counted?) = delivered log := by
  rw [delivered, delivered, List.filterMap_filterMap]
  congr 2
  funext e
  cases e with
  | stat s n => cases s <;> rfl
  | _ => rfl

/-! ## What a move counts -/

/-- What `deliver` logs. -/
def delivery (id : Nat) (result : GenResult) : List Event :=
  [.stat .promptTokens result.usage.promptTokens, .stat .completionTokens result.usage.completionTokens,
    .stat .e2eLatency 1, .setValue id result]

/-- What a move does to the number of active jobs and to the counters, and whether it rejects a
    request. -/
inductive Counts : Nat → Nat → Bool → List Event → Prop where
  | nothing {active} : Counts active active false []
  | admitted {active} : Counts active (active + 1) false [.stat .admitted 1]
  | preempted {active} : Counts (active + 1) active false [.stat .preemptions 1]
  | retired {active} (id : Nat) (result : GenResult) :
      Counts (active + 1) active false (.stat .completed 1 :: delivery id result)
  | rejected (id : Nat) (result : GenResult) : Counts 0 0 true (delivery id result)

namespace Continuous

variable {σ : Type} {w : World σ} {config : SchedulerConfig} {s s' : Continuous σ} {q q' : RequestQueue}

/-- A request leaves admission, and nothing was active before or is after. -/
def rejects (s s' : Continuous σ) : Bool :=
  match s.pc, s'.pc with
  | .reserve _, .admitNext => s.active.isEmpty && s'.active.isEmpty
  | _, _ => false

theorem rejects_self (s : Continuous σ) : s.rejects s = false := by
  simp only [rejects]
  split
  · rename_i reserve next
    rw [next] at reserve
    cases reserve
  · rfl

theorem rejects_of_pc (elsewhere : ∀ job, s.pc ≠ .reserve job) : s.rejects s' = false := by
  simp only [rejects]
  split
  · rename_i pc _
    exact absurd pc (elsewhere _)
  · rfl

theorem rejects_of_pc' (elsewhere : s'.pc ≠ .admitNext) : s.rejects s' = false := by
  simp only [rejects]
  split
  · rename_i pc
    exact absurd pc elsewhere
  · rfl

theorem rejects_of_active (busy : s'.active ≠ []) : s.rejects s' = false := by
  simp only [rejects]
  split
  · simp [busy]
  · rfl

theorem Move.counts (move : Move w config s q s' q') (silent : s.port.log = []) :
    Counts s.active.length s'.active.length (s.rejects s') (s'.port.log.filterMap Event.counted?) := by
  have nothing : s.port.log.filterMap Event.counted? = [] := by rw [silent]; rfl
  have finishes := fun (state : SequenceState) (port : Port σ) =>
    Scheduler.filterMap_finish (w := w) Event.counted?_of_toSink state port
  have quiet : s.rejects s' = false → s'.active.length = s.active.length →
      s'.port.log.filterMap Event.counted? = [] →
      Counts s.active.length s'.active.length (s.rejects s') (s'.port.log.filterMap Event.counted?) := by
    intro stays same none
    rw [stays, same, none]
    exact .nothing
  have joins : ∀ job : Job, s'.active = s.active ++ [job] →
      s'.port.log.filterMap Event.counted? = [.stat .admitted 1] →
      Counts s.active.length s'.active.length (s.rejects s') (s'.port.log.filterMap Event.counted?) := by
    intro job active counted
    rw [rejects_of_active (by rw [active]; simp), active, List.length_append, counted]
    exact .admitted
  have leaves : ∀ {before after : List Job} {job : Job}, s.active = before ++ job :: after →
      s.active.length = (before ++ after).length + 1 := by
    intro before after job here
    rw [here, List.length_append, List.length_append, List.length_cons, Nat.add_assoc]
  have around : ∀ {before after : List Job} {job job' : Job}, s.active = before ++ job :: after →
      (before ++ job' :: after).length = s.active.length := by
    intro before after job job' here
    simp [here]
  have built : ∀ nBatch, (buildBatch nBatch config s.active).active.length = s.active.length :=
    fun nBatch => (same_build nBatch config s.active).length_eq.symm
  cases move with
  -- admission
  | @reject job pc unfinished full alone =>
    have rejected : s.rejects (s.reject w job) = true := by
      simp [rejects, pc, Continuous.reject, alone]
    rw [rejected, show (s.reject w job).active = s.active from rfl, alone]
    simp only [Continuous.reject, Scheduler.filterMap_deliver, Port.filterMap_release, finishes, nothing,
      Event.counted?]
    exact .rejected job.request.id { job with state :=
      ((job.state.fail (s.rejectMessage job) .contextOverflow).finish w s.port).1 }.result
  | placeFailed | place => exact joins _ rfl (by simp [Continuous.place, nothing, Event.counted?])
  | adopt pc fits same caching found positive within copied =>
    exact joins _ rfl (by simp [Continuous.place, Port.filterMap_copy _ copied, nothing, Event.counted?])
  | giveUp pc short evicted =>
    have counted := Scheduler.filterMap_reclaim_caching Event.counted?_of_caching evicted
    exact quiet (rejects_of_pc' (by simp [pc])) rfl (counted.trans nothing)
  | defer pc =>
    refine quiet (rejects_of_pc' ?_) rfl (by simp [Continuous.defer, nothing, Event.counted?])
    simp only [Continuous.defer]
    split <;> simp
  | adoptCrash pc fits same copied =>
    exact quiet (rejects_of_pc' (by simp)) rfl (by simp [Port.filterMap_copy _ copied, nothing, Event.counted?])
  | make pc next free begun | makeCrash pc next free begun =>
    exact quiet (rejects_of_pc (by simp [pc])) rfl
      (by simp [Port.filterMap_begin _ begun, nothing, Event.counted?])
  -- the batch
  | buildNothing pc => exact quiet (rejects_of_pc (by simp [pc])) (built _) nothing
  | decode pc something returned =>
    exact quiet (rejects_of_pc (by simp [pc])) (built _)
      (by simp [Port.filterMap_decode _ returned, nothing, Event.counted?])
  | decodeFail pc something threw =>
    exact quiet (rejects_of_pc (by simp [pc])) (same_decodeFail _ _ _ s).length_eq.symm
      (by simp [failAll, Port.filterMap_decode _ threw, nothing, Event.counted?])
  -- accepting the sampled tokens
  | acceptFail pc =>
    exact quiet (rejects_of_pc (by simp [pc])) (same_failAll _ _).length_eq.symm nothing
  | acceptFinish pc here accepted =>
    exact quiet (rejects_of_pc (by simp [pc])) (around here)
      (by simp [finishes, Scheduler.filterMap_accept Event.counted?_of_toSink accepted, nothing])
  | acceptStarve pc here accepted | acceptGrow pc here accepted =>
    exact quiet (rejects_of_pc (by simp [pc])) (around here)
      (by simp [Scheduler.filterMap_accept Event.counted?_of_toSink accepted, nothing])
  | acceptPublish pc here accepted =>
    exact quiet (rejects_of_pc (by simp [pc])) (around here)
      (by simp [Scheduler.filterMap_accept Event.counted?_of_toSink accepted, nothing, Event.counted?])
  -- the sweeps
  | @sweepRetire starved before job after pc here finished =>
    rw [rejects_of_pc (by simp [pc]), leaves here,
      Scheduler.filterMap_retire_caching Event.counted?_of_caching, finishes, nothing]
    exact .retired job.request.id { job with state := (job.state.finish w s.port).1 }.result
  | sweepLoop pc =>
    exact quiet (rejects_of_pc (by simp [pc])) rfl (by simp [nothing, Event.counted?])
  -- making room for the starved jobs
  | resolveFail pc here large failed =>
    subst failed
    exact quiet (rejects_of_pc (by simp [pc])) (around here) (by simp [finishes, nothing])
  | reclaimGrow pc here | preemptGrow pc here =>
    exact quiet (rejects_of_pc (by simp [pc])) (around here) nothing
  | reclaimDonor pc here full evicted =>
    have counted := Scheduler.filterMap_reclaim_caching Event.counted?_of_caching evicted
    exact quiet (rejects_of_pc (by simp [pc])) rfl (counted.trans nothing)
  | @preemptEvict slot starved job before victim after pc starving named full here =>
    rw [rejects_of_pc (by simp [pc]), leaves here]
    simp only [Port.filterMap_note, Port.filterMap_release, nothing, Event.counted?]
    exact .preempted
  | take pc | leave pc | finish pc | admitted pc | acceptEnd pc | acceptStray pc | sweepKeep pc
  | sweepResolve pc | resolveEnd pc | resolveGone pc | resolveRoom pc | reclaimGone pc | reclaimEnd pc
  | preemptGone pc | preemptEnd pc =>
    exact quiet (rejects_of_pc (by simp [pc])) rfl nothing

end Continuous

/-! ## The balance -/

/-- Every admission ended in a completion or a preemption or is under way; every promise was that of
    a job that completed or was rejected, was observed once, and had its usage counted. -/
@[mk_iff]
structure Balanced (log : List Event) (active rejected : Nat) : Prop where
  admitted : total .admitted log = total .completed log + total .preemptions log + active
  fulfilled : (delivered log).length = total .completed log + rejected
  observed : total .e2eLatency log = (delivered log).length
  promptTokens : total .promptTokens log = ((delivered log).map (·.usage.promptTokens)).sum
  completionTokens : total .completionTokens log = ((delivered log).map (·.usage.completionTokens)).sum

theorem balanced_counted {log : List Event} {active rejected : Nat} :
    Balanced (log.filterMap Event.counted?) active rejected ↔ Balanced log active rejected := by
  rw [balanced_iff, balanced_iff, delivered_counted, total_counted .admitted (fun _ => rfl),
    total_counted .completed (fun _ => rfl), total_counted .preemptions (fun _ => rfl),
    total_counted .promptTokens (fun _ => rfl), total_counted .completionTokens (fun _ => rfl),
    total_counted .e2eLatency (fun _ => rfl)]

/-- A move keeps the balance. -/
theorem Balanced.counts {log events : List Event} {active active' rejected : Nat} {rejects : Bool}
    (balanced : Balanced log active rejected) (counts : Counts active active' rejects events) :
    Balanced (log ++ events) active' (rejected + rejects.toNat) := by
  obtain ⟨balance, fulfilled, observed, prompts, completions⟩ := balanced
  cases counts <;> constructor <;> simp [delivery] <;> omega

namespace Server

variable {σ : Type} {w : World σ} {config : SchedulerConfig} {capacity : Nat} {world : σ}
variable {past : List Event}

/-- The continuous loop, with the number of requests it has rejected at admission. -/
def accounting (w : World σ) (config : SchedulerConfig) (capacity : Nat) (world : σ) :
    Transition.Machine (Server (Continuous σ) × Nat) Event :=
  (continuous w config capacity world).counting fun s t => s.thread.rejects t.thread

theorem balanced_run {s : Server (Continuous σ) × Nat} (run : (accounting w config capacity world).Run past s) :
    Balanced past s.1.thread.active.length s.2 := by
  induction run with
  | @start s initial =>
    obtain ⟨s, rejected⟩ := s
    obtain ⟨rfl, rfl⟩ := initial
    exact ⟨rfl, rfl, rfl, rfl, rfl⟩
  | @next past s events t earlier step ih =>
    obtain ⟨t, rejected⟩ := t
    obtain ⟨step, count⟩ := step
    simp only at count
    subst count
    have settled := settled_run earlier.of_counting
    cases step with
    | push | close =>
      show Balanced (past ++ []) s.1.thread.active.length (s.2 + (s.1.thread.rejects s.1.thread).toNat)
      rw [Continuous.rejects_self, List.append_nil]
      exact ih
    | run stepped =>
      obtain ⟨s', move, rfl, rfl⟩ := Continuous.step_move
        (config.construct_maxBatchSize_pos w.caps) settled.layout stepped
      rw [← balanced_counted, List.filterMap_append]
      exact (balanced_counted.mpr ih).counts (move.counts settled.silent)

/-- A loop that has returned has nothing active. -/
theorem returned_run {s : Server (Continuous σ)} (run : (continuous w config capacity world).Run past s)
    (done : s.thread.pc = .done) : s.thread.active = [] := by
  refine continuous_thread_invariant ?_ ?_ run.guarded_true done
  · exact fun _ => rfl
  · exact fun _ _ _ _ _ _ _ move _ done => (move.returned done).1

end Server

/-- In every state of every run of the continuous loop, in particular between iterations: the admissions
    are the completions, the preemptions and the active jobs; the promises that were fulfilled,
    and the latencies that were observed, are the completions and the rejections; and the tokens
    that were counted are those of the results.  Once the loop has returned, the admissions that
    were not completed are the preemptions. -/
theorem counters_balance {σ : Type} (w : World σ) (config : SchedulerConfig) (capacity : Nat) (world : σ)
    (past : List Event) (s : Server (Continuous σ)) (rejected : Nat)
    (run : (Server.accounting w config capacity world).Run past (s, rejected)) :
    total .admitted past = total .completed past + total .preemptions past + s.thread.active.length ∧
    (delivered past).length = total .completed past + rejected ∧
    total .e2eLatency past = (delivered past).length ∧
    total .promptTokens past = ((delivered past).map (·.usage.promptTokens)).sum ∧
    total .completionTokens past = ((delivered past).map (·.usage.completionTokens)).sum ∧
    (s.thread.pc = .done → total .admitted past - total .completed past = total .preemptions past) := by
  obtain ⟨balance, fulfilled, observed, prompts, completions⟩ := Server.balanced_run run
  refine ⟨balance, fulfilled, observed, prompts, completions, ?_⟩
  intro done
  rw [Server.returned_run run.of_counting done, List.length_nil] at balance
  omega

/-- A prompt that the pool cannot hold, and one that it can. -/
theorem counters_balance_letter :
    ∃ past s rejected, (Server.accounting Script.letter.world (.single 0) 4 fun _ => none).Run past
        (s, rejected) ∧
      total .admitted past = 1 ∧ total .completed past = 1 ∧ rejected = 1 ∧
      total .e2eLatency past = (delivered past).length ∧
      total .promptTokens past = ((delivered past).map (·.usage.promptTokens)).sum := by
  obtain ⟨past, s, run, admitted, completed, fulfilled⟩ : ∃ past s,
      (Server.continuous Script.letter.world (.single 0) 4 fun _ => none).Run past s ∧
      (total .admitted past = 1 ∧ total .completed past = 1 ∧ (delivered past).length = 2) :=
    Server.exists_run ([.push { id := 0, spec := { prompt := List.replicate 18 1, maxTokens := 2 } },
      .push { id := 1, spec := { prompt := [1, 2], maxTokens := 2 } }] ++ List.replicate 36 .run)
      rfl rfl (by decide +kernel)
  obtain ⟨rejected, run⟩ := run.exists_counting fun s t => s.thread.rejects t.thread
  obtain ⟨_, promises, observed, prompts, _⟩ := counters_balance _ _ _ _ past s rejected run
  exact ⟨past, s, rejected, run, admitted, completed, by omega, observed, prompts⟩

end MicroVllm
