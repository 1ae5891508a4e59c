import MicroVllm.Scheduler.Limits
import MicroVllm.Scheduler.Progress

/-! # Attempts to admit a request

Before it is decided whether a request can be admitted, donors are given up until its prompt would
fit.  That happens to a request that has failed the context check already, and to one that will
turn out to be larger than the pool.
-/

namespace MicroVllm

open Transition (Machine)

namespace Continuous

variable {σ : Type} {w : World σ} {config : SchedulerConfig} {s t u : Continuous σ} {job : Job}

/-- Room for the prompt, or no donor left to give up. -/
def KeepsDonors (job : Job) (s : Continuous σ) : Prop :=
  s.watermark job ≤ s.blocks.freeBlocks ∨ ∀ p ∈ s.prefixCache.pairs, p.2.retained = false

/-- The cache, the pool and the jobs are what they were, except that a failed job may have joined
    the batch. -/
structure Untouched (job : Job) (s t : Continuous σ) : Prop where
  entries : t.prefixCache.pairs = s.prefixCache.pairs
  slots : t.prefixCache.freeDonorSlots = s.prefixCache.freeDonorSlots
  refcounts : ∀ b, t.blocks.refcount b = s.blocks.refcount b
  free : t.blocks.freeList = s.blocks.freeList
  active : t.active = s.active ∨
    t.active = s.active ++ [job] ∧ job.state.finished = true ∧ job.blocks = {}

/-- The pool, the cache and the batch are the same: all that a decision about a job reads. -/
structure SameHoldings (s t : Continuous σ) : Prop where
  blocks : t.blocks = s.blocks
  prefixCache : t.prefixCache = s.prefixCache
  active : t.active = s.active

theorem SameHoldings.keepsDonors (same : s.SameHoldings t) : t.KeepsDonors job ↔ s.KeepsDonors job := by
  have mark : t.watermark job = s.watermark job := by
    rw [watermark, watermark, want, want, same.blocks, same.active]
  rw [KeepsDonors, KeepsDonors, mark, same.blocks, same.prefixCache]

/-- A donor is there as long as one can be reclaimed. -/
theorem reclaim_eq_none_iff {m : Scheduler σ} :
    m.reclaimDonorBlocks w = none ↔ ∀ p ∈ m.prefixCache.pairs, p.2.retained = false := by
  constructor
  · intro spent
    exact PrefixCache.evictLruRetained_eq_none (Scheduler.evict_of_reclaim spent)
  · intro none
    cases evicted : m.prefixCache.evictLruRetained with
    | none => simp only [Scheduler.reclaimDonorBlocks, evicted]
    | some next =>
      obtain ⟨donor, cache⟩ := next
      obtain ⟨hash, member, kept, _⟩ := PrefixCache.evictLruRetained_eq_some evicted
      have live := none _ member
      simp [kept] at live

/-- A turn of the loop over donors gives one up, or decides. -/
theorem reserve_cases (w : World σ) (config : SchedulerConfig) (job : Job) (s : Continuous σ) :
    (¬ s.KeepsDonors job ∧ ∃ members, s.reclaimDonorBlocks w = some members ∧
        s.reserve w config job = { s with toScheduler := members }) ∨
      (s.KeepsDonors job ∧ s.reserve w config job = s.decide w config job) := by
  unfold reserve
  by_cases short : s.blocks.freeBlocks < s.watermark job
  · rw [if_pos short]
    cases evicted : s.reclaimDonorBlocks w with
    | none => exact .inr ⟨.inr (reclaim_eq_none_iff.mp evicted), rfl⟩
    | some members =>
      refine .inl ⟨?_, members, rfl, rfl⟩
      rintro (room | none)
      · omega
      · rw [reclaim_eq_none_iff.mpr none] at evicted
        cases evicted
  · rw [if_neg short]
    exact .inr ⟨.inl (by omega), rfl⟩

theorem decide_of_finished (finished : job.state.finished = true) : s.decide w config job = s.place job := by
  simp [Continuous.decide, share, finished]

theorem share_active_or (w : World σ) (config : SchedulerConfig) (job : Job) (s : Continuous σ) :
    (∃ message, (s.share w config job).pc = .crashed message) ∨ (s.share w config job).active ≠ [] := by
  have placed : ∀ (t : Continuous σ) (job : Job), (t.place job).active ≠ [] := by
    intro t job
    simp [place]
  simp only [share]
  split
  · split
    · split
      · simp only [adopt]
        split
        · exact .inl ⟨_, rfl⟩
        · exact .inr (placed _ _)
      · exact .inr (placed _ _)
    · exact .inr (placed _ _)
  · exact .inr (placed _ _)

/-- A decision against a job touches nothing. -/
theorem decide_untouched (fresh : job.blocks = {})
    (rejected : job.state.finished = true ∨ (s.active = [] ∧ (s.decide w config job).active = []))
    (isOver : (s.decide w config job).pc = .admitNext) : s.Untouched job (s.decide w config job) := by
  by_cases finished : job.state.finished = true
  · rw [decide_of_finished finished]
    exact ⟨rfl, rfl, fun _ => rfl, rfl, .inr ⟨rfl, finished, fresh⟩⟩
  · obtain ⟨alone, still⟩ := rejected.resolve_left finished
    simp only [Continuous.decide, finished, Bool.false_eq_true, if_false] at isOver still ⊢
    split at isOver
    · -- a job that fits is placed, or the thread is dead
      rename_i table blocks fits
      simp only [fits] at still
      rcases share_active_or w config { job with blocks := table } { s with blocks := blocks } with
        ⟨message, dead⟩ | some
      · rw [dead] at isOver
        cases isOver
      · exact absurd still some
    · simp only [alone, if_true]
      exact ⟨rfl, rfl, fun _ => rfl, rfl, .inl rfl⟩

/-- A decision is one: the thread does not come back to the job. -/
theorem decide_pc (w : World σ) (config : SchedulerConfig) (job job' : Job) (s : Continuous σ) :
    (s.decide w config job).pc ≠ .reserve job' := by
  have shared : ∀ (t : Continuous σ) (job : Job), (t.share w config job).pc ≠ .reserve job' := by
    intro t job
    simp only [share]
    split
    · split
      · split
        · simp only [adopt]
          split <;> simp [place]
        · simp [place]
      · simp [place]
    · simp [place]
  simp only [Continuous.decide]
  split
  · exact shared s job
  · split
    · exact shared _ _
    · split
      · simp [reject]
      · simp only [defer]
        split <;> simp

/-- The job in hand is new, and nothing has happened to the rest. -/
theorem admitNext_attempting (inHand : (s.admitNext w).pc = .reserve job) :
    job.blocks = {} ∧ s.SameHoldings (s.admitNext w) := by
  simp only [admitNext, Scheduler.makeJob] at inHand ⊢
  split at inHand
  · split at inHand
    · rename_i made
      split at made
      · cases made
        cases inHand
        exact ⟨Scheduler.newJob_blocks .., rfl, rfl, rfl⟩
      · cases made
    · cases inHand
  · dsimp only at inHand
    split at inHand <;> cases inHand

/-- What the holdings have come to while an attempt goes on. -/
structure Attempting (job : Job) (s t : Continuous σ) : Prop where
  pc : t.pc = .reserve job
  active : t.active = s.active
  holdings : s.SameHoldings t ∨
    ¬ s.KeepsDonors job ∧ t.prefixCache.pairs.length < s.prefixCache.pairs.length

/-- What a rejection has left. -/
def Spared (job : Job) (s t : Continuous σ) : Prop :=
  (s.KeepsDonors job ∧ s.Untouched job t) ∨
    ¬ s.KeepsDonors job ∧ t.prefixCache.pairs.length < s.prefixCache.pairs.length

theorem Spared.iff (spared : s.Spared job t) : s.Untouched job t ↔ s.KeepsDonors job := by
  constructor
  · intro untouched
    rcases spared with ⟨kept, _⟩ | ⟨_, fewer⟩
    · exact kept
    · rw [untouched.entries] at fewer
      omega
  · intro kept
    rcases spared with ⟨_, untouched⟩ | ⟨lost, _⟩
    · exact untouched
    · exact absurd kept lost

/-- An attempt goes on with one donor less, or it is over. -/
theorem Attempting.reserve (attempt : s.Attempting job t) (fresh : job.blocks = {}) :
    s.Attempting job (t.reserve w config job).quiet ∨
      (t.reserve w config job).quiet.pc ≠ .reserve job ∧
        ((job.state.finished = true ∨ (s.active = [] ∧ (t.reserve w config job).quiet.active = [])) →
          (t.reserve w config job).quiet.pc = .admitNext → s.Spared job (t.reserve w config job).quiet) := by
  rcases reserve_cases w config job t with ⟨lost, members, evicted, next⟩ | ⟨kept, next⟩
  · left
    rw [next]
    have fewer := pairs_reclaim evicted
    refine ⟨attempt.pc, attempt.active, .inr ?_⟩
    rcases attempt.holdings with same | ⟨already, before⟩
    · rw [same.prefixCache] at fewer
      exact ⟨fun kept => lost (same.keepsDonors.mpr kept), fewer⟩
    · exact ⟨already, Nat.lt_trans fewer before⟩
  · right
    rw [next]
    refine ⟨decide_pc w config job job t, fun rejected isOver => ?_⟩
    rw [← attempt.active] at rejected
    have untouched := decide_untouched fresh rejected isOver
    rcases attempt.holdings with same | ⟨already, before⟩
    · refine .inl ⟨same.keepsDonors.mp kept, ?_⟩
      have pool := same.blocks
      have cache := same.prefixCache
      have members := same.active
      exact ⟨untouched.entries.trans (by rw [cache]), untouched.slots.trans (by rw [cache]),
        fun b => (untouched.refcounts b).trans (by rw [pool]), untouched.free.trans (by rw [pool]),
        members ▸ untouched.active⟩
    · refine .inr ⟨already, ?_⟩
      show (t.decide w config job).prefixCache.pairs.length < _
      rw [untouched.entries]
      exact before

end Continuous

namespace Server

variable {σ τ : Type} {w : World σ} {config : SchedulerConfig} {capacity : Nat} {world : σ}

/-- A request is taken in hand at one step, and the steps up to the decision are its attempt.  An
    attempt that ends in a rejection leaves the cache, the pool and the jobs alone exactly if there
    was room for the prompt or no donor to give up for it. -/
theorem rejection_leaves_cache {s hand t : Server (Continuous σ)} {events more : List Event} {job : Job}
    (admitting : s.thread.pc = .admitNext)
    (taken : (continuous w config capacity world).step s events hand)
    (inHand : hand.thread.pc = .reserve job)
    (attempt : (((continuous w config capacity world).startingAt hand).guarded
      fun u _ _ => u.thread.pc = .reserve job).Run more t)
    (isOver : t.thread.pc = .admitNext)
    (rejected : job.state.finished = true ∨ (s.thread.active = [] ∧ t.thread.active = [])) :
    s.thread.Untouched job t.thread ↔ s.thread.KeepsDonors job := by
  have first : job.blocks = {} ∧ s.thread.SameHoldings hand.thread := by
    cases taken with
    | push request fresh => exact absurd (admitting.symm.trans inHand) (by simp)
    | close => exact absurd (admitting.symm.trans inHand) (by simp)
    | run stepped =>
      simp only [Continuous.step, Continuous.turn, admitting, Option.map_some, Option.some.injEq,
        Prod.mk.injEq] at stepped
      obtain ⟨_, rfl, _⟩ := stepped
      obtain ⟨fresh, same⟩ := Continuous.admitNext_attempting inHand
      exact ⟨fresh, same.blocks, same.prefixCache, same.active⟩
  obtain ⟨fresh, same⟩ := first
  -- until the decision the job stays in hand, and afterwards no step is part of the attempt
  have reached : s.thread.Attempting job t.thread ∨ t.thread.pc ≠ .reserve job ∧
      ((job.state.finished = true ∨ (s.thread.active = [] ∧ t.thread.active = [])) →
        t.thread.pc = .admitNext → s.thread.Spared job t.thread) := by
    clear isOver rejected
    induction attempt with
    | start initial =>
      cases initial
      exact .inl ⟨inHand, same.active, .inl same⟩
    | next earlier step ih =>
      obtain ⟨step, guard⟩ := step
      have attempting := ih.resolve_right fun gone => gone.1 guard
      cases step with
      | push request fresh => exact .inl attempting
      | close => exact .inl attempting
      | run stepped =>
        simp only [Continuous.step, Continuous.turn, guard, Option.map_some, Option.some.injEq,
          Prod.mk.injEq] at stepped
        obtain ⟨_, rfl, _⟩ := stepped
        exact attempting.reserve fresh
  rcases reached with attempting | ⟨_, spared⟩
  · exact absurd (isOver.symm.trans attempting.pc) (by simp)
  · exact (spared rejected isOver).iff

/-- Schedules up to a state, for one step from there and for an attempt from then on show that
    there is such an attempt. -/
theorem exists_attempt {m : Machine (Server τ) Event}
    {step : τ → RequestQueue → Option (List Event × τ × RequestQueue)}
    {allowed : Server τ → List Event → Server τ → Prop} [∀ s events t, Decidable (allowed s events t)]
    {reached : Server τ → Server τ → Server τ → Prop} [∀ s hand t, Decidable (reached s hand t)]
    {first : Server τ} (actions actions' : List Action) (steps : m.step = Step step)
    (initial : m.init first)
    (played : (play step (fun _ _ _ => true) actions [] first).any (fun r =>
      (step r.2.thread r.2.queue).any fun next =>
        (play step (fun s events t => allowed s events t) actions' []
          ⟨next.2.1, next.2.2, r.2.accepted⟩).any fun r' =>
            reached r.2 ⟨next.2.1, next.2.2, r.2.accepted⟩ r'.2) = true) :
    ∃ past s events hand more t, m.Run past s ∧ m.step s events hand ∧
      ((m.startingAt hand).guarded allowed).Run more t ∧ reached s hand t := by
  obtain ⟨⟨past, s⟩, ends, played⟩ := (Option.any_eq_true _ _).mp played
  obtain ⟨⟨events, thread, queue⟩, stepped, played⟩ := (Option.any_eq_true _ _).mp played
  obtain ⟨⟨more, t⟩, attempt, holds⟩ := (Option.any_eq_true _ _).mp played
  have rest : ((m.startingAt ⟨thread, queue, s.accepted⟩).guarded allowed).Run more t :=
    run_of_play (m := m.startingAt _) steps (.start rfl) attempt
  exact ⟨past, s, events, _, more, t, run_of_free_play steps initial ends, steps ▸ .run stepped, rest,
    of_decide_eq_true holds⟩

end Server

/-- A request for more tokens than the letter model's context has. -/
def Request.oversized (prompt : Text) : Request :=
  { id := 1, spec := { prompt := prompt, maxTokens := 100 } }

def Job.oversized (prompt : Text) : Job :=
  Scheduler.newJob Script.letter.world (.oversized prompt) 0

namespace Server

/-- A donor is held and seven blocks are free when a request comes that asks for more tokens than
    the context has.  Its prompt of two tokens would fit, and the donor stays. -/
theorem rejection_leaves_cache_letter :
    ∃ past s events hand more t job,
      (continuous Script.letter.world (.single 1) 4 fun _ => none).Run past s ∧
      (continuous Script.letter.world (.single 1) 4 fun _ => none).step s events hand ∧
      (((continuous Script.letter.world (.single 1) 4 fun _ => none).startingAt hand).guarded
        fun u _ _ => u.thread.pc = .reserve job).Run more t ∧
      (t.thread.pc = .admitNext ∧ job.state.finished = true ∧ s.thread.prefixCache.pairs ≠ []) ∧
      s.thread.Untouched job t.thread := by
  obtain ⟨past, s, events, hand, more, t, run, taken, attempt, admitting, inHand, isOver, failed, donor, room⟩ :
      ∃ past s events hand more t,
      (continuous Script.letter.world (.single 1) 4 fun _ => none).Run past s ∧
      (continuous Script.letter.world (.single 1) 4 fun _ => none).step s events hand ∧
      (((continuous Script.letter.world (.single 1) 4 fun _ => none).startingAt hand).guarded
        fun u _ _ => u.thread.pc = .reserve (.oversized [3, 4])).Run more t ∧
      (s.thread.pc = .admitNext ∧ hand.thread.pc = .reserve (.oversized [3, 4]) ∧ t.thread.pc = .admitNext ∧
        (Job.oversized [3, 4]).state.finished = true ∧
        s.thread.prefixCache.pairs ≠ [] ∧
        s.thread.watermark (.oversized [3, 4]) ≤ s.thread.blocks.freeBlocks) :=
    exists_attempt ([.push { id := 0, spec := { prompt := [1, 2], maxTokens := 2 } },
        .push (.oversized [3, 4])] ++ List.replicate 34 .run)
      [.run] rfl rfl (by decide +kernel)
  exact ⟨past, s, events, hand, more, t, _, run, taken, attempt, ⟨isOver, failed, donor⟩,
    (rejection_leaves_cache admitting taken inHand attempt isOver (.inl failed)).mpr (.inl room)⟩

/-- The same with a prompt of sixteen tokens: the request has failed already, and the donor is
    given up for it. -/
theorem rejection_evicts_letter :
    ∃ past s events hand more t job,
      (continuous Script.letter.world (.single 1) 4 fun _ => none).Run past s ∧
      (continuous Script.letter.world (.single 1) 4 fun _ => none).step s events hand ∧
      (((continuous Script.letter.world (.single 1) 4 fun _ => none).startingAt hand).guarded
        fun u _ _ => u.thread.pc = .reserve job).Run more t ∧
      (s.thread.pc = .admitNext ∧ hand.thread.pc = .reserve job ∧ t.thread.pc = .admitNext ∧
        job.state.finished = true ∧ s.thread.prefixCache.pairs ≠ [] ∧ t.thread.prefixCache.pairs = []) ∧
      ¬ s.thread.Untouched job t.thread := by
  obtain ⟨past, s, events, hand, more, t, run, taken, attempt, reached⟩ :
      ∃ past s events hand more t,
      (continuous Script.letter.world (.single 1) 4 fun _ => none).Run past s ∧
      (continuous Script.letter.world (.single 1) 4 fun _ => none).step s events hand ∧
      (((continuous Script.letter.world (.single 1) 4 fun _ => none).startingAt hand).guarded
        fun u _ _ => u.thread.pc = .reserve (.oversized (List.replicate 16 3))).Run more t ∧
      (s.thread.pc = .admitNext ∧ hand.thread.pc = .reserve (.oversized (List.replicate 16 3)) ∧
        t.thread.pc = .admitNext ∧
        (Job.oversized (List.replicate 16 3)).state.finished = true ∧
        s.thread.prefixCache.pairs ≠ [] ∧ t.thread.prefixCache.pairs = []) :=
    exists_attempt ([.push { id := 0, spec := { prompt := [1, 2], maxTokens := 2 } },
        .push (.oversized (List.replicate 16 3))] ++
      List.replicate 34 .run) [.run, .run] rfl rfl (by decide +kernel)
  have lost : ¬ s.thread.Untouched (.oversized (List.replicate 16 3)) t.thread := by
    obtain ⟨_, _, _, _, donor, gone⟩ := reached
    intro untouched
    apply donor
    rw [← untouched.entries, gone]
  exact ⟨past, s, events, hand, more, t, _, run, taken, attempt, reached, lost⟩

end Server

end MicroVllm
