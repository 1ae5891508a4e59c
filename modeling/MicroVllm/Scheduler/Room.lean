import MicroVllm.Scheduler.Tables

/-! # What the pool can hold

A running sequence never has more tokens than the whole pool could hold, or it has just been found
short of blocks and is about to be failed for it.  A request is refused on arrival only if its
prompt alone is more than the pool holds, unless blocks have been lost.
-/

namespace MicroVllm

/-- The tokens need more blocks than there are, by the 32-bit arithmetic of `blocks_for`. -/
def SchedulerConfig.Exceeded (config : SchedulerConfig) (n : Nat) : Prop :=
  config.kvBlocks < toUint32 (n + config.blockSize - 1) / config.blockSize

/-- The slots found short of blocks that have not been looked at yet. -/
def Pc.short : Pc → List Nat
  | .accept _ _ grewShort => grewShort
  | .sweep _ (some starved) => starved
  | .resolve starved => starved
  | .reclaim _ starved => starved
  | .preempt _ starved => starved
  | _ => []

namespace Continuous

variable {σ : Type} {w : World σ} {config : SchedulerConfig} {s s' : Continuous σ} {q q' : RequestQueue}

/-- The pool could hold every running sequence that has not just been found short. -/
def Fitting (s : Continuous σ) : Prop :=
  ∀ job ∈ s.active, job.state.finished = false → job.state.seq ∉ s.pc.short →
    s.blocks.blocksFor job.needed ≤ s.blocks.total

/-- A page table lists no block twice, and so never more than there are. -/
theorem Books.nBlocks_le {lostBlocks lostSlots : List Nat} (books : Books config s lostBlocks lostSlots)
    {job : Job} (active : job ∈ s.active) : job.blocks.nBlocks ≤ s.blocks.total := by
  have inside : job.blocks.blocks ⊆ List.range s.blocks.total := by
    intro b held
    apply List.mem_range.mpr
    apply BlockAllocator.refcount_lt_total
    rw [books.ledger.accounts.counts b]
    exact List.count_pos_iff.mpr (List.mem_append_left _ (mem_tables active held))
  have fewer := ((books.distinct job active).subperm inside).length_le
  rwa [List.length_range] at fewer

/-- A new job needs room for its prompt. -/
theorem newJob_needed (w : World σ) (request : Request) (slot : Nat) :
    (Scheduler.newJob w request slot).needed = (Scheduler.newJob w request slot).state.usage.promptTokens := by
  have fresh : (Scheduler.newJob w request slot).state.usage.completionTokens = 0 := by
    simp only [Scheduler.newJob, Scheduler.checkContext]
    split <;> rfl
  have counted : (Scheduler.newJob w request slot).state.usage.promptTokens < 2 ^ 32 := by
    rw [(origin_newJob w request slot).promptTokens]
    exact Nat.lt_trans (origin_newJob w request slot).prompt_lt (by decide)
  rw [Job.needed, fresh, Nat.add_zero, toUint32_of_lt counted]

namespace Fitting

/-- Every running job was running before and needs as much. -/
theorem frame (fitting : s.Fitting) (pool : s.blocks.SamePool s'.blocks)
    (jobs : ∀ job' ∈ s'.active, job'.state.finished = false → ∃ job ∈ s.active,
      job.state.finished = false ∧ job.state.seq = job'.state.seq ∧ job.needed = job'.needed)
    (short : ∀ slot ∈ s.pc.short, slot ∈ s'.pc.short) : s'.Fitting := by
  intro job' active unfinished rested
  obtain ⟨job, old, running, seq, needed⟩ := jobs job' active unfinished
  have fits := fitting job old running fun found => rested (seq ▸ short _ found)
  rw [needed] at fits
  unfold BlockAllocator.blocksFor at fits ⊢
  rw [pool.total, pool.blockSize]
  exact fits

/-- One job moves on among the others. -/
theorem around {before after : List Job} {job job' : Job} (fitting : s.Fitting)
    (pool : s.blocks.SamePool s'.blocks) (here : s.active = before ++ job :: after)
    (there : s'.active = before ++ job' :: after) (nodup : (seqs s.active).Nodup)
    (seq : job'.state.seq = job.state.seq)
    (short : ∀ slot ∈ s.pc.short, slot ≠ job.state.seq → slot ∈ s'.pc.short)
    (moved : job'.state.finished = false → job'.state.seq ∉ s'.pc.short →
      s'.blocks.blocksFor job'.needed ≤ s'.blocks.total) : s'.Fitting := by
  intro j active unfinished rested
  rw [there] at active
  rcases mem_replaced nodup here active with rfl | ⟨old, other⟩
  · exact moved unfinished rested
  · have fits := fitting j old unfinished fun found => rested (short _ found other)
    unfold BlockAllocator.blocksFor at fits ⊢
    rw [pool.total, pool.blockSize]
    exact fits

theorem move {lostBlocks lostSlots : List Nat} (fitting : s.Fitting) (layout : Layout w config s)
    (books : Books config s lostBlocks lostSlots) (move : Move w config s q s' q') : s'.Fitting := by
  have pool := move.pool
  have nodup := layout.nodup
  obtain ⟨lostBlocks', lostSlots', after, _⟩ := books.move layout move
  -- a table that has just been grown to what the job needs is part of the pool
  have grown : ∀ {table table' : BlockTable} {n : Nat} {blocks : BlockAllocator} {job : Job},
      table.ensureCapacity n s.blocks = some (table', blocks) → job ∈ s'.active →
      table'.nBlocks ≤ job.blocks.nBlocks → s'.blocks.blocksFor n ≤ s'.blocks.total := by
    intro table table' n blocks job grown active covers
    have most := after.nBlocks_le active
    obtain ⟨_, size, _⟩ := BlockTable.ensureCapacity_shape grown
    have same : s'.blocks.blocksFor n = s.blocks.blocksFor n := by
      unfold BlockAllocator.blocksFor
      rw [pool.blockSize]
    omega
  have stays : ∀ {jobs : List Job}, (∀ job ∈ jobs, job ∈ s.active) →
      ∀ job' ∈ jobs, job'.state.finished = false → ∃ job ∈ s.active,
        job.state.finished = false ∧ job.state.seq = job'.state.seq ∧ job.needed = job'.needed :=
    fun old job active unfinished => ⟨job, old job active, unfinished, rfl, rfl⟩
  have joins : ∀ {job : Job}, s'.active = s.active ++ [job] → s.pc.short = [] →
      (job.state.finished = false → s'.blocks.blocksFor job.needed ≤ s'.blocks.total) → s'.Fitting := by
    intro job active none new j member unfinished _
    rw [active] at member
    rcases List.mem_append.mp member with old | last
    · have fits := fitting j old unfinished (by simp [none])
      unfold BlockAllocator.blocksFor at fits ⊢
      rw [pool.total, pool.blockSize]
      exact fits
    · cases List.mem_singleton.mp last
      exact new unfinished
  have built : ∀ job' ∈ (buildBatch w.caps.nBatch config s.active).active, job'.state.finished = false →
      ∃ job ∈ s.active, job.state.finished = false ∧ job.state.seq = job'.state.seq ∧
        job.needed = job'.needed := by
    intro job' member unfinished
    have same := forall₂_build (R := fun job job' => job.state.finished = job'.state.finished ∧
      job.state.seq = job'.state.seq ∧ job.needed = job'.needed) (fun _ => ⟨rfl, rfl, rfl⟩)
      (fun _ _ => ⟨rfl, rfl, rfl⟩) w.caps.nBatch config s.active
    obtain ⟨job, active, finished, rest⟩ := Lists.exists_of_forall₂_right same member
    exact ⟨job, active, finished.trans unfinished, rest⟩
  have keeps : ∀ {job : Job}, s'.pc.short = s.pc.short →
      ∀ slot ∈ s.pc.short, slot ≠ job.state.seq → slot ∈ s'.pc.short :=
    fun same slot found _ => same ▸ found
  cases move with
  | take pc | leave pc | finish pc | make pc | makeCrash pc | giveUp pc | reject pc | defer pc
  | adoptCrash pc | admitted pc =>
    exact fitting.frame pool (stays fun _ member => member) (by simp [pc, Pc.short])
  | placeFailed pc failed => exact joins rfl (by rw [pc]; rfl) (by simp [failed])
  | @place job table blocks cache pc fits =>
    obtain ⟨request, slot, slots, rfl, _⟩ := layout.hand _ pc
    refine joins rfl (by rw [pc]; rfl) fun _ => ?_
    have needed : Job.needed { Scheduler.newJob w request slot with blocks := table } = _ :=
      newJob_needed w request slot
    rw [needed]
    exact grown fits.grown (List.mem_append_right _ List.mem_cons_self) (Nat.le_refl _)
  | @adopt job table blocks cache hit port pc fits =>
    obtain ⟨request, slot, slots, rfl, _⟩ := layout.hand _ pc
    refine joins rfl (by rw [pc]; rfl) fun _ => ?_
    have needed : (inherit (Scheduler.newJob w request slot) table hit).needed = _ :=
      newJob_needed w request slot
    rw [needed]
    refine grown fits.grown (List.mem_append_right _ List.mem_cons_self) ?_
    simp [inherit, BlockTable.nBlocks]
  | buildNothing pc | decode pc => exact fitting.frame pool built (by simp [pc, Pc.short])
  | decodeFail | acceptFail =>
    -- nobody is running any more
    intro job member unfinished
    rw [finished_failAll member] at unfinished
    cases unfinished
  | @sweepKeep starved before job later pc =>
    refine fitting.frame pool (stays fun _ member => member) ?_
    rw [pc]
    cases starved <;> exact fun _ found => found
  | acceptEnd pc | acceptStray pc | sweepResolve pc | sweepLoop pc | resolveEnd pc
  | reclaimGone pc | reclaimDonor pc | reclaimEnd pc | preemptGone pc | preemptEnd pc =>
    exact fitting.frame pool (stays fun _ member => member) (by simp [pc, Pc.short])
  | resolveGone pc gone =>
    intro job active unfinished rested
    apply fitting job active unfinished
    rw [pc]
    intro found
    rcases List.mem_cons.mp found with same | later
    · exact gone (mem_seqs.mpr ⟨job, active, same⟩)
    · exact rested later
  | acceptFinish pc here accepted =>
    have stopped := (SequenceState.accept_accepts accepted).finished_of_stops
    refine fitting.around pool here rfl nodup ?_ (keeps (by rw [pc]; rfl)) ?_
    · exact (SequenceState.finish_same (w := w) _ _).seq.trans (SequenceState.accept_same accepted).seq
    · simp [SequenceState.finish_finished stopped]
  | acceptStarve pc here accepted =>
    have seq := (SequenceState.accept_same accepted).seq
    refine fitting.around pool here rfl nodup seq ?_ ?_
    · intro slot found _
      rw [pc] at found
      exact List.mem_append_left _ found
    · intro _ rested
      exact absurd (List.mem_append_right _ (List.mem_singleton.mpr seq)) rested
  | acceptGrow pc here accepted grows =>
    have seq := (SequenceState.accept_same accepted).seq
    refine fitting.around pool here rfl nodup seq (keeps (by rw [pc]; rfl)) fun _ _ => ?_
    exact grown grows (List.mem_append_right _ List.mem_cons_self) (Nat.le_refl _)
  | acceptPublish pc here accepted grows published =>
    subst published
    have seq := (SequenceState.accept_same accepted).seq
    refine fitting.around pool here rfl nodup seq (keeps (by rw [pc]; rfl)) fun _ _ => ?_
    exact grown grows (List.mem_append_right _ List.mem_cons_self) (Nat.le_refl _)
  | sweepRetire pc here =>
    exact fitting.frame pool (stays fun _ => Lists.mem_of_without here) (fun _ found => found)
  | resolveFail pc here large failed =>
    subst failed
    refine fitting.around pool here rfl nodup ?_ ?_ ?_
    · exact (SequenceState.finish_same (w := w) _ _).seq
    · intro slot found other
      rw [pc] at found
      exact (List.mem_cons.mp found).resolve_left other
    · simp [SequenceState.finish_finished, SequenceState.fail, SequenceState.stopWith]
  | resolveRoom pc here small =>
    refine fitting.around pool here here nodup rfl ?_ fun _ _ => small
    intro slot found other
    rw [pc] at found
    exact (List.mem_cons.mp found).resolve_left other
  | reclaimGrow pc here grows | preemptGrow pc here grows =>
    refine fitting.around pool here rfl nodup rfl (keeps (by rw [pc]; rfl)) fun _ _ => ?_
    exact grown grows (List.mem_append_right _ List.mem_cons_self) (Nat.le_refl _)
  | preemptEvict pc starving named full here =>
    exact fitting.frame pool (stays fun _ => Lists.mem_of_without here) (fun _ found => found)

end Fitting

end Continuous

namespace Server

variable {σ : Type} {w : World σ} {config : SchedulerConfig} {capacity : Nat} {world : σ}
variable {past : List Event} {s : Server (Continuous σ)}

theorem fitting_run (apart : config.Apart) (run : (continuous w config capacity world).Run past s) :
    s.thread.Fitting := by
  refine continuous_thread_invariant ?_ ?_ run.guarded_true
  · simp [Continuous.Fitting, Continuous.start]
  · intro past s thread queue run settled fitting move _
    obtain ⟨lostBlocks, lostSlots, books⟩ := books_run apart run.of_guarded
    have after : thread.Fitting := fitting.move settled.layout books move
    exact after

end Server

end MicroVllm
