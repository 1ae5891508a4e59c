import MicroVllm.Scheduler.Orderly
import MicroVllm.Scheduler.Reservations
import MicroVllm.Scheduler.Room

/-! # Running out of blocks

A sequence that cannot get the block for its next token is looked after at the end of the turn.  It
is failed if the whole pool could not hold it, and otherwise others are evicted until it fits.  That
loop can also end because nobody is left to evict, and then the sequence would go on without the
block.  Without prefix caching it never does: a sequence that was failed in the same turn holds the
whole pool, so that nobody else can be short, and with nobody else there is room.
-/

namespace MicroVllm

namespace BlockAllocator

variable {a : BlockAllocator}

/-- One more token takes at most one more block; a count that wraps takes none. -/
theorem blocksFor_next (sized : 0 < a.blockSize) (n : Nat) :
    a.blocksFor (toUint32 (n + 1)) ≤ a.blocksFor (toUint32 n) + 1 := by
  have wraps : ∀ m, toUint32 (m + 1) = toUint32 m + 1 ∨ toUint32 (m + 1) = 0 := by
    intro m
    simp only [toUint32]
    omega
  rcases wraps n with more | none
  · rw [more, blocksFor, blocksFor]
    have shift : toUint32 n + 1 + a.blockSize - 1 = toUint32 n + a.blockSize - 1 + 1 := by omega
    rw [shift]
    -- the sum of `blocks_for` may wrap by itself
    rcases wraps (toUint32 n + a.blockSize - 1) with more | none
    · rw [more]
      calc (toUint32 (toUint32 n + a.blockSize - 1) + 1) / a.blockSize
          ≤ (toUint32 (toUint32 n + a.blockSize - 1) + a.blockSize) / a.blockSize :=
            Nat.div_le_div_right (by omega)
        _ = toUint32 (toUint32 n + a.blockSize - 1) / a.blockSize + 1 := Nat.add_div_right _ sized
    · rw [none, Nat.zero_div]
      exact Nat.zero_le _
  · rw [none, blocksFor]
    have small : toUint32 (0 + a.blockSize - 1) ≤ a.blockSize - 1 := by
      rw [Nat.zero_add]
      exact toUint32_le _
    rw [Nat.div_eq_of_lt (by omega)]
    exact Nat.zero_le _

/-- A prompt has a block, unless blocks are so large that no number of tokens takes two. -/
theorem blocksFor_pos_or (sized : 0 < a.blockSize) {n : Nat} (positive : 0 < n) (small : n < 2 ^ 31) :
    0 < a.blocksFor n ∨ ∀ m, a.blocksFor m ≤ 1 := by
  by_cases wraps : n + a.blockSize - 1 < 2 ^ 32
  · left
    rw [blocksFor, toUint32_of_lt wraps]
    exact Nat.div_pos (by omega) sized
  · right
    intro m
    have bound : toUint32 (m + a.blockSize - 1) < 2 ^ 32 := Nat.mod_lt _ (by decide)
    apply Nat.le_of_lt_succ
    apply Nat.div_lt_of_lt_mul
    omega

theorem SamePool.blocksFor {b : BlockAllocator} (pool : a.SamePool b) (n : Nat) :
    b.blocksFor n = a.blocksFor n := by
  rw [BlockAllocator.blocksFor, BlockAllocator.blocksFor, pool.blockSize]

/-- Every block is free or somebody's. -/
theorem Accounts.total_le {refs : List Nat} (accounts : a.Accounts refs) :
    a.total ≤ refs.length + a.freeBlocks := by
  have covered : List.range a.total ⊆ refs ++ a.freeList := by
    intro b inside
    have bound := List.mem_range.mp inside
    by_cases held : b ∈ refs
    · exact List.mem_append_left _ held
    · apply List.mem_append_right
      rw [accounts.memFree, accounts.counts, List.count_eq_zero]
      exact ⟨bound, held⟩
  have length := (List.subperm_of_subset List.nodup_range covered).length_le
  simpa [freeBlocks] using length

end BlockAllocator

/-! ## Tables that keep up -/

/-- The slot that room is being made for. -/
def Pc.serving : Pc → Option Nat
  | .reclaim slot _ => some slot
  | .preempt slot _ => some slot
  | _ => none

/-- The slots found short of blocks that are still without them. -/
def Pc.unserved (pc : Pc) : List Nat := pc.serving.toList ++ pc.short

/-- After the first sweep of a turn and before the last. -/
def Pc.resolving : Pc → Bool
  | .resolve _ | .reclaim _ _ | .preempt _ _ => true
  | _ => false

/-- The table of a job holds its prompt and its completion; a job found short may miss a block. -/
structure Job.Covered (a : BlockAllocator) (unserved : List Nat) (job : Job) : Prop where
  prompt : a.blocksFor job.state.usage.promptTokens ≤ job.blocks.nBlocks
  tokens : a.blocksFor job.needed ≤ job.blocks.nBlocks + if job.state.seq ∈ unserved then 1 else 0

/-- A job goes on with the tokens and the table it has. -/
structure Job.Keeps (job job' : Job) : Prop where
  seq : job'.state.seq = job.state.seq
  prompt : job'.state.usage.promptTokens = job.state.usage.promptTokens
  needed : job'.needed = job.needed
  table : job.blocks.nBlocks ≤ job'.blocks.nBlocks
  finished : job'.state.finished = job.state.finished

theorem Job.Keeps.refl (job : Job) : job.Keeps job := ⟨rfl, rfl, rfl, Nat.le_refl _, rfl⟩

namespace Job.Covered

variable {a b : BlockAllocator} {unserved unserved' : List Nat} {job job' : Job}

theorem keeps (covered : job.Covered a unserved) (pool : a.SamePool b) (keeps : job.Keeps job')
    (still : job.state.seq ∈ unserved → job.state.seq ∈ unserved') : job'.Covered b unserved' := by
  have prompt := covered.prompt
  have tokens := covered.tokens
  have table := keeps.table
  constructor
  · rw [pool.blocksFor, keeps.prompt]
    omega
  · rw [pool.blocksFor, keeps.needed, keeps.seq]
    by_cases short : job.state.seq ∈ unserved
    · rw [if_pos (still short)]
      rw [if_pos short] at tokens
      omega
    · rw [if_neg short] at tokens
      omega

/-- A table that was grown to what the job needs. -/
theorem grown (grows : job.blocks.ensureCapacity job'.needed a = some (job'.blocks, b))
    (prompt : a.blocksFor job'.state.usage.promptTokens ≤ job'.blocks.nBlocks) :
    job'.Covered b unserved := by
  have pool := BlockAllocator.SamePool.grown grows
  obtain ⟨_, size, _⟩ := BlockTable.ensureCapacity_shape grows
  constructor
  · rw [pool.blocksFor]
    exact prompt
  · rw [pool.blocksFor, size]
    exact Nat.le_trans (Nat.le_max_right _ _) (Nat.le_add_right _ _)

end Job.Covered

namespace Continuous

variable {σ : Type} {w : World σ} {config : SchedulerConfig} {s s' : Continuous σ} {q q' : RequestQueue}

/-- Every running job is covered.  While the jobs found short are looked after, a finished one has
    just been failed and holds the whole pool; the one that room is made for fits the pool. -/
structure Supplied (s : Continuous σ) : Prop where
  covered : ∀ job ∈ s.active, job.state.finished = false → job.Covered s.blocks s.pc.unserved
  spent : s.pc.resolving = true → ∀ job ∈ s.active, job.state.finished = true →
    s.blocks.total ≤ job.blocks.nBlocks ∧ ∃ n, s.blocks.total < s.blocks.blocksFor n
  fits : ∀ job ∈ s.active, s.pc.serving = some job.state.seq →
    s.blocks.blocksFor job.needed ≤ s.blocks.total

/-- The next turn of the eviction loop finds nobody to evict, and the sequence it is for still short
    of blocks. -/
def GivesUp (s : Continuous σ) : Prop :=
  ∃ job starved, s.pc = .preempt job.state.seq starved ∧ job ∈ s.active ∧
    job.blocks.ensureCapacity job.needed s.blocks = none ∧ victim? job.state.seq s.active = none

/-! ### Covered, move by move -/

/-- Every running job was running before, and keeps what it has. -/
theorem covered_frame (pool : s.blocks.SamePool s'.blocks)
    (covered : ∀ job ∈ s.active, job.state.finished = false → job.Covered s.blocks s.pc.unserved)
    (jobs : ∀ job' ∈ s'.active, job'.state.finished = false → ∃ job ∈ s.active, job.Keeps job')
    (still : ∀ job ∈ s.active, job.state.seq ∈ s.pc.unserved → job.state.seq ∈ s'.pc.unserved) :
    ∀ job ∈ s'.active, job.state.finished = false → job.Covered s'.blocks s'.pc.unserved := by
  intro job' member unfinished
  obtain ⟨job, old, keeps⟩ := jobs job' member unfinished
  have running : job.state.finished = false := keeps.finished.symm.trans unfinished
  exact (covered job old running).keeps pool keeps (still job old)

/-- One job moves on among the others. -/
theorem covered_around {before after : List Job} {job job' : Job} (pool : s.blocks.SamePool s'.blocks)
    (covered : ∀ job ∈ s.active, job.state.finished = false → job.Covered s.blocks s.pc.unserved)
    (here : s.active = before ++ job :: after) (there : s'.active = before ++ job' :: after)
    (nodup : (seqs s.active).Nodup)
    (still : ∀ slot ∈ s.pc.unserved, slot ≠ job.state.seq → slot ∈ s'.pc.unserved)
    (moved : job'.state.finished = false → job'.Covered s'.blocks s'.pc.unserved) :
    ∀ j ∈ s'.active, j.state.finished = false → j.Covered s'.blocks s'.pc.unserved := by
  intro j member unfinished
  rw [there] at member
  rcases mem_replaced nodup here member with rfl | ⟨old, other⟩
  · exact moved unfinished
  · exact (covered j old unfinished).keeps pool (.refl j) fun short => still _ short other

/-- A job joins. -/
theorem covered_joins {job : Job} (pool : s.blocks.SamePool s'.blocks)
    (covered : ∀ job ∈ s.active, job.state.finished = false → job.Covered s.blocks s.pc.unserved)
    (active : s'.active = s.active ++ [job]) (none : s.pc.unserved = [])
    (new : job.state.finished = false → job.Covered s'.blocks s'.pc.unserved) :
    ∀ j ∈ s'.active, j.state.finished = false → j.Covered s'.blocks s'.pc.unserved := by
  intro j member unfinished
  rw [active, List.mem_append, List.mem_singleton] at member
  rcases member with old | rfl
  · exact (covered j old unfinished).keeps pool (.refl j) fun short => by simp [none] at short
  · exact new unfinished

/-- A job that only needs its prompt, with the blocks for that. -/
theorem covered_new {job job' : Job} {table : BlockTable} {a b c : BlockAllocator} (unserved : List Nat)
    (pool : a.SamePool c) (needed : job.needed = job.state.usage.promptTokens)
    (grown : job.blocks.ensureCapacity job.state.usage.promptTokens a = some (table, b))
    (prompt : job'.state.usage.promptTokens = job.state.usage.promptTokens)
    (same : job'.needed = job.needed) (covers : table.nBlocks ≤ job'.blocks.nBlocks) :
    job'.Covered c unserved := by
  obtain ⟨_, size, _⟩ := BlockTable.ensureCapacity_shape grown
  have most := Nat.le_max_right job.blocks.nBlocks (a.blocksFor job.state.usage.promptTokens)
  constructor
  · rw [pool.blocksFor, prompt]
    omega
  · rw [pool.blocksFor, same, needed]
    omega

/-- Between two tokens a table falls short by one block at most. -/
theorem covered_accept {job : Job} {a : BlockAllocator} {unserved unserved' : List Nat} {step : GenStep}
    {state : SequenceState} {port port' : Port σ} (sized : 0 < a.blockSize)
    (covered : job.Covered a unserved) (served : job.state.seq ∉ unserved)
    (accepted : job.state.accept w step port = (true, state, port'))
    (short : job.state.seq ∈ unserved') : Job.Covered a unserved' { job with state := state } := by
  have same := SequenceState.accept_same accepted
  have tokens := covered.tokens
  rw [if_neg served] at tokens
  constructor
  · show a.blocksFor state.usage.promptTokens ≤ _
    rw [same.promptTokens]
    exact covered.prompt
  · show a.blocksFor (toUint32 (state.usage.promptTokens + state.usage.completionTokens)) ≤ _
    have one : state.usage.completionTokens = job.state.usage.completionTokens + 1 := by
      cases SequenceState.accept_accepts accepted
      rfl
    rw [same.promptTokens, one, ← Nat.add_assoc]
    have next := BlockAllocator.blocksFor_next sized
      (job.state.usage.promptTokens + job.state.usage.completionTokens)
    simp only [same.seq, short, if_true]
    simp only [Job.needed] at tokens
    omega

theorem Move.covered (move : Move w config s q s' q') (layout : Layout w config s) (orderly : s.Orderly)
    (sized : 0 < s.blocks.blockSize) (goesOn : ¬ s.GivesUp)
    (covered : ∀ job ∈ s.active, job.state.finished = false → job.Covered s.blocks s.pc.unserved) :
    ∀ job ∈ s'.active, job.state.finished = false → job.Covered s'.blocks s'.pc.unserved := by
  have pool := move.pool
  have nodup := layout.nodup
  have stays : ∀ {jobs : List Job}, (∀ job ∈ jobs, job ∈ s.active) → ∀ job' ∈ jobs,
      job'.state.finished = false → ∃ job ∈ s.active, job.Keeps job' :=
    fun old job member _ => ⟨job, old job member, .refl job⟩
  have built : ∀ job' ∈ (buildBatch w.caps.nBatch config s.active).active, job'.state.finished = false →
      ∃ job ∈ s.active, job.Keeps job' := by
    intro job' member _
    have keeps := forall₂_build (R := Job.Keeps) .refl
      (fun job take => ⟨rfl, rfl, rfl, Nat.le_refl _, rfl⟩) w.caps.nBatch config s.active
    exact Lists.exists_of_forall₂_right keeps member
  -- a table that is grown has what the job needs, and not less than it had
  have grows : ∀ {job job' : Job} {blocks : BlockAllocator} {unserved : List Nat}, job ∈ s.active →
      job.state.finished = false → job.Same job' →
      job.blocks.ensureCapacity job'.needed s.blocks = some (job'.blocks, blocks) →
      job'.Covered blocks unserved := by
    intro job job' blocks unserved member running same grown
    refine Job.Covered.grown grown ?_
    obtain ⟨_, size, _⟩ := BlockTable.ensureCapacity_shape grown
    have prompt := (covered job member running).prompt
    rw [same.state.promptTokens]
    omega
  have sampled : ∀ {before after : List Job} {job : Job}, s.active = before ++ job :: after →
      job ∈ s.active ∧ (job.state.seq ∈ s.pc.running → job.state.finished = false) := by
    intro before after job here
    have member : job ∈ s.active := by simp [here]
    exact ⟨member, orderly.running job member⟩
  have same : s'.pc.unserved = s.pc.unserved → ∀ {job : Job}, ∀ slot ∈ s.pc.unserved,
      slot ≠ job.state.seq → slot ∈ s'.pc.unserved :=
    fun unserved _ slot found _ => unserved ▸ found
  cases move with
  | take pc | leave pc | finish pc | make pc | makeCrash pc | giveUp pc | reject pc | defer pc
  | adoptCrash pc | admitted pc =>
    exact covered_frame pool covered (stays fun _ member => member)
      (by simp [pc, Pc.unserved, Pc.serving, Pc.short])
  | placeFailed pc failed =>
    exact covered_joins pool covered rfl (by rw [pc]; rfl) (by simp [failed])
  | @place job table blocks cache pc fits =>
    obtain ⟨request, slot, slots, rfl, _⟩ := layout.hand _ pc
    refine covered_joins pool covered rfl (by rw [pc]; rfl) fun _ => ?_
    exact covered_new _ pool (newJob_needed w request slot) fits.grown rfl rfl (Nat.le_refl _)
  | @adopt job table blocks cache hit port pc fits =>
    obtain ⟨request, slot, slots, rfl, _⟩ := layout.hand _ pc
    refine covered_joins pool covered rfl (by rw [pc]; rfl) fun _ => ?_
    refine covered_new _ pool (newJob_needed w request slot) fits.grown rfl rfl ?_
    simp [inherit, BlockTable.nBlocks]
  | buildNothing pc | decode pc =>
    exact covered_frame pool covered built (by simp [pc, Pc.unserved, Pc.serving, Pc.short])
  | decodeFail | acceptFail =>
    -- nobody is running any more
    intro job member unfinished
    rw [finished_failAll member] at unfinished
    cases unfinished
  | @sweepKeep starved before job later pc =>
    refine covered_frame pool covered (stays fun _ member => member) ?_
    rw [pc]
    cases starved <;> exact fun _ _ found => found
  | acceptEnd pc | acceptStray pc | sweepResolve pc | sweepLoop pc | resolveEnd pc | resolveRoom pc
  | reclaimDonor pc | reclaimEnd pc =>
    exact covered_frame pool covered (stays fun _ member => member)
      (by simp [pc, Pc.unserved, Pc.serving, Pc.short])
  | resolveGone pc gone | reclaimGone pc gone | preemptGone pc gone =>
    -- the slot that is dropped is nobody's
    refine covered_frame pool covered (stays fun _ member => member) ?_
    intro job active short
    have other : job.state.seq ≠ _ := fun same => gone (mem_seqs.mpr ⟨job, active, same⟩)
    simpa [pc, Pc.unserved, Pc.serving, Pc.short, other] using short
  | acceptFinish pc here accepted =>
    have stopped := (SequenceState.accept_accepts accepted).finished_of_stops
    refine covered_around pool covered here rfl nodup (same (by rw [pc]; rfl)) ?_
    simp [SequenceState.finish_finished stopped]
  | @acceptStarve sampling step steps grewShort before job later state port pc here accepted =>
    obtain ⟨member, running⟩ := sampled here
    refine covered_around pool covered here rfl nodup ?_ fun _ => ?_
    · intro slot found _
      rw [pc] at found
      show slot ∈ grewShort ++ [job.state.seq]
      exact List.mem_append_left _ found
    · -- each slot is sampled once in a turn, so this one was not short before
      have once := orderly.once
      rw [pc] at once
      have served : job.state.seq ∉ s.pc.unserved := by
        rw [pc]
        intro short
        exact (List.nodup_cons.mp once).1 (List.mem_append_right _ short)
      have unfinished := running (by rw [pc]; simp [Pc.running, Pc.sampled])
      exact covered_accept sized (covered job member unfinished) served accepted
        (by simp [Pc.unserved, Pc.serving, Pc.short])
  | acceptGrow pc here accepted grown =>
    obtain ⟨member, running⟩ := sampled here
    refine covered_around pool covered here rfl nodup (same (by rw [pc]; rfl)) fun _ => ?_
    exact grows member (running (by rw [pc]; simp [Pc.running, Pc.sampled])) (same_accept accepted) grown
  | acceptPublish pc here accepted grown published =>
    subst published
    obtain ⟨member, running⟩ := sampled here
    refine covered_around pool covered here rfl nodup (same (by rw [pc]; rfl)) fun _ => ?_
    exact grows member (running (by rw [pc]; simp [Pc.running, Pc.sampled])) (same_accept accepted) grown
  | sweepRetire pc here =>
    exact covered_frame pool covered (stays fun _ => Lists.mem_of_without here) fun _ _ found => found
  | resolveFail pc here large failed =>
    subst failed
    refine covered_around pool covered here rfl nodup ?_ ?_
    · intro slot found other
      rw [pc] at found
      exact (List.mem_cons.mp found).resolve_left other
    · simp [SequenceState.finish_finished, SequenceState.fail, SequenceState.stopWith]
  | reclaimGrow pc here grown =>
    obtain ⟨member, running⟩ := sampled here
    refine covered_around pool covered here rfl nodup (same (by rw [pc]; rfl)) fun _ => ?_
    exact grows member (running (by rw [pc]; simp [Pc.running, Pc.sampled])) (.withBlocks _ _) grown
  | preemptGrow pc here grown =>
    obtain ⟨member, running⟩ := sampled here
    refine covered_around pool covered here rfl nodup ?_ fun _ => ?_
    · intro slot found other
      rw [pc] at found
      exact (List.mem_cons.mp found).resolve_left other
    · exact grows member (running (by rw [pc]; simp [Pc.running, Pc.sampled])) (.withBlocks _ _) grown
  | preemptEvict pc starving named full here =>
    exact covered_frame pool covered (stays fun _ => Lists.mem_of_without here) fun _ _ found => found
  | @preemptEnd starved job pc starving full alone =>
    refine absurd ⟨job, starved, pc, starving, full, List.find?_eq_none.mpr ?_⟩ goesOn
    intro j member
    rcases alone j (List.mem_reverse.mp member) with finished | same
    · simp [finished]
    · simp [same]

/-! ### Spent, and fitting -/

theorem spent_frame (pool : s.blocks.SamePool s'.blocks) (supplied : s.Supplied)
    (resolving : s.pc.resolving = true)
    (jobs : ∀ job' ∈ s'.active, ∃ job ∈ s.active, job.Keeps job') :
    ∀ job ∈ s'.active, job.state.finished = true →
      s'.blocks.total ≤ job.blocks.nBlocks ∧ ∃ n, s'.blocks.total < s'.blocks.blocksFor n := by
  intro job' member finished
  obtain ⟨job, old, keeps⟩ := jobs job' member
  obtain ⟨whole, n, large⟩ := supplied.spent resolving job old (keeps.finished.symm.trans finished)
  rw [pool.total]
  exact ⟨Nat.le_trans whole keeps.table, n, by rw [pool.blocksFor]; exact large⟩

theorem fits_frame (pool : s.blocks.SamePool s'.blocks) (supplied : s.Supplied)
    (serving : s'.pc.serving = s.pc.serving)
    (jobs : ∀ job' ∈ s'.active, ∃ job ∈ s.active, job.Keeps job') :
    ∀ job ∈ s'.active, s'.pc.serving = some job.state.seq →
      s'.blocks.blocksFor job.needed ≤ s'.blocks.total := by
  intro job' member served
  obtain ⟨job, old, keeps⟩ := jobs job' member
  rw [serving, keeps.seq] at served
  rw [pool.blocksFor, pool.total, keeps.needed]
  exact supplied.fits job old served

theorem keeps_around {before after : List Job} {job job' : Job} (here : s.active = before ++ job :: after)
    (keeps : job.Keeps job') : ∀ j ∈ before ++ job' :: after, ∃ old ∈ s.active, old.Keeps j := by
  intro j member
  rcases Lists.mem_of_around here member with rfl | old
  · exact ⟨job, by simp [here], keeps⟩
  · exact ⟨j, old, .refl j⟩

theorem keeps_without {before after : List Job} {job : Job} (here : s.active = before ++ job :: after) :
    ∀ j ∈ before ++ after, ∃ old ∈ s.active, old.Keeps j :=
  fun j member => ⟨j, Lists.mem_of_without here member, .refl j⟩

theorem keeps_grown {job : Job} {table : BlockTable} {n : Nat} {a b : BlockAllocator}
    (grown : job.blocks.ensureCapacity n a = some (table, b)) : job.Keeps { job with blocks := table } := by
  obtain ⟨_, size, _⟩ := BlockTable.ensureCapacity_shape grown
  exact ⟨rfl, rfl, rfl, by rw [size]; exact Nat.le_max_left _ _, rfl⟩

theorem Move.spent (move : Move w config s q s' q') (orderly : s.Orderly) (supplied : s.Supplied) :
    s'.pc.resolving = true → ∀ job ∈ s'.active, job.state.finished = true →
      s'.blocks.total ≤ job.blocks.nBlocks ∧ ∃ n, s'.blocks.total < s'.blocks.blocksFor n := by
  intro resolving
  have pool := move.pool
  have stays : ∀ job ∈ s.active, ∃ old ∈ s.active, old.Keeps job := fun job member => ⟨job, member, .refl job⟩
  cases move with
  | sweepResolve pc through =>
    -- the sweep has left no finished job
    intro job member finished
    have swept := orderly.swept _ _ pc job (by rw [List.take_of_length_le through]; exact member)
    simp [swept] at finished
  | resolveGone pc | resolveRoom pc | reclaimGone pc | reclaimDonor pc | reclaimEnd pc | preemptGone pc
  | preemptEnd pc =>
    exact spent_frame pool supplied (by rw [pc]; rfl) stays
  | @resolveFail starved before job after finished pc here large failed =>
    subst failed
    intro j member ended
    have active : job ∈ s.active := by simp [here]
    rcases Lists.mem_of_around here member with rfl | old
    · -- the table misses one block at most, and the pool is too small for what is needed
      have running := orderly.running job active (by rw [pc]; simp [Pc.running, Pc.sampled])
      have tokens := (supplied.covered job active running).tokens
      refine ⟨?_, job.needed, large⟩
      show s.blocks.total ≤ job.blocks.nBlocks
      split at tokens <;> omega
    · exact supplied.spent (by rw [pc]; rfl) j old ended
  | reclaimGrow pc here grown | preemptGrow pc here grown =>
    exact spent_frame pool supplied (by rw [pc]; rfl) (keeps_around here (keeps_grown grown))
  | preemptEvict pc starving named full here =>
    exact spent_frame pool supplied (by rw [pc]; rfl) (keeps_without here)
  | take pc | giveUp pc | sweepRetire pc => simp [pc, Pc.resolving] at resolving
  | admitted => simp only at resolving; split at resolving <;> cases resolving
  | defer => simp only [Continuous.defer] at resolving; split at resolving <;> cases resolving
  | _ => cases resolving

theorem Move.fits (move : Move w config s q s' q') (layout : Layout w config s) (supplied : s.Supplied) :
    ∀ job ∈ s'.active, s'.pc.serving = some job.state.seq →
      s'.blocks.blocksFor job.needed ≤ s'.blocks.total := by
  have pool := move.pool
  have stays : ∀ job ∈ s.active, ∃ old ∈ s.active, old.Keeps job := fun job member => ⟨job, member, .refl job⟩
  cases move with
  | @resolveRoom starved before job after pc here small =>
    intro j member serving
    have same : j.state.seq = job.state.seq := (Option.some.inj serving).symm
    rcases mem_replaced layout.nodup here (here ▸ member) with rfl | ⟨_, other⟩
    · exact small
    · exact absurd same other
  | reclaimDonor => exact fits_frame pool supplied rfl stays
  | reclaimEnd pc => exact fits_frame pool supplied (by rw [pc]; rfl) stays
  | reclaimGrow pc here grown =>
    exact fits_frame pool supplied (by rw [pc]; rfl) (keeps_around here (keeps_grown grown))
  | preemptEvict pc starving named full here => exact fits_frame pool supplied rfl (keeps_without here)
  | take pc | giveUp pc => exact fits_frame pool supplied rfl stays
  | sweepRetire pc here => exact fits_frame pool supplied rfl (keeps_without here)
  | admitted | defer =>
    intro job _ serving
    have none : (if s.active = [] then Pc.takeWork else Pc.build).serving = none := by split <;> rfl
    exact absurd (none.symm.trans serving) (by simp)
  | _ => intro job _ serving; cases serving

theorem Supplied.move (supplied : s.Supplied) (layout : Layout w config s) (orderly : s.Orderly)
    (sized : 0 < s.blocks.blockSize) (goesOn : ¬ s.GivesUp) (move : Move w config s q s' q') :
    s'.Supplied where
  covered := move.covered layout orderly sized goesOn supplied.covered
  spent := move.spent orderly supplied
  fits := move.fits layout supplied

/-! ## Room in the end -/

/-- A table that grows takes blocks that were in none. -/
theorem Books.tables_nodup_grow {lostBlocks lostSlots : List Nat} {before after : List Job} {job job' : Job}
    {n : Nat} (books : Books config s lostBlocks lostSlots) (nodup : (tables s.active).Nodup)
    (here : s.active = before ++ job :: after) (there : s'.active = before ++ job' :: after)
    (grown : job.blocks.ensureCapacity n s.blocks = some (job'.blocks, s'.blocks)) :
    (tables s'.active).Nodup := by
  obtain ⟨_, extra, appended, distinct, fresh⟩ := (books.apart here).grow grown
  have split : (tables (before ++ job' :: after)).Perm (extra ++ tables s.active) := by
    rw [List.perm_iff_count]
    intro b
    rw [here]
    simp only [tables_append, tables_cons, appended, List.count_append]
    omega
  rw [there, split.nodup_iff]
  apply distinct.append nodup
  intro b new old
  apply fresh b new
  rw [here, tables_append, tables_cons] at old
  simp only [List.mem_append] at old ⊢
  tauto

/-- Without cached prefixes no block is in two tables. -/
theorem Books.tables_nodup {lostBlocks lostSlots : List Nat} (books : Books config s lostBlocks lostSlots)
    (layout : Layout w config s) (off : config.prefixCaching = false) (nodup : (tables s.active).Nodup)
    (move : Move w config s q s' q') : (tables s'.active).Nodup := by
  have same : List.Forall₂ Job.SameTable s.active s'.active → (tables s'.active).Nodup := by
    intro jobs
    rw [tables_of_same jobs]
    exact nodup
  have around : ∀ {before after : List Job} {job job' : Job}, s.active = before ++ job :: after →
      s'.active = before ++ job' :: after → job.SameTable job' → (tables s'.active).Nodup := by
    intro before after job job' here there table
    apply same
    rw [here, there]
    exact Lists.forall₂_around .refl table
  have without : ∀ {before after : List Job} {job : Job}, s.active = before ++ job :: after →
      (tables (before ++ after)).Nodup := by
    intro before after job here
    rw [here, tables_append, tables_cons] at nodup
    rw [tables_append]
    exact nodup.sublist (List.Sublist.append_left (List.sublist_append_right _ _) _)
  have empty : ∀ job, s.pc = .reserve job → job.blocks.blocks = [] := by
    intro job pc
    obtain ⟨request, slot, slots, rfl, _⟩ := layout.hand job pc
    rfl
  cases move with
  | placeFailed pc =>
    show (tables (s.active ++ [_])).Nodup
    rw [tables_append, tables_cons, empty _ pc]
    simpa using nodup
  | @place job table blocks cache pc fits =>
    obtain ⟨_, distinct, fresh⟩ := books.fits fits (empty job pc)
    show (tables (s.active ++ [{ job with blocks := table }])).Nodup
    rw [tables_append, tables_cons, tables_nil, List.append_nil]
    refine nodup.append distinct ?_
    intro b old new
    exact fresh b new (List.mem_append_left _ old)
  -- the one move that puts a block in a second table
  | adopt pc fits touched caching => simp [off] at caching
  | buildNothing | decode => exact same (same_build _ _ _)
  | decodeFail => exact same (same_decodeFail _ _ _ s)
  | acceptFail => exact same (same_failAll _ _)
  | acceptFinish pc here accepted => exact around here rfl ⟨same_finish (same_accept accepted) _, rfl⟩
  | acceptStarve pc here accepted => exact around here rfl ⟨same_accept accepted, rfl⟩
  | resolveFail pc here large failed =>
    subst failed
    exact around here rfl ⟨⟨rfl, ((SequenceState.fail_same _ _ _).trans
      (SequenceState.finish_same _ _)).toSameOrigin⟩, rfl⟩
  | acceptGrow pc here accepted grown => exact books.tables_nodup_grow nodup here rfl grown
  | acceptPublish pc here accepted grown published =>
    subst published
    exact books.tables_nodup_grow nodup here rfl grown
  | reclaimGrow pc here grown | preemptGrow pc here grown =>
    exact books.tables_nodup_grow nodup here rfl grown
  | sweepRetire pc here => exact without here
  | preemptEvict pc starving named full here => exact without here
  | _ => exact nodup

/-- With every other sequence gone the pool covers the shortfall; and a sequence that is not gone
    has been failed, holds the whole pool, and leaves nothing for one that is short. -/
theorem Supplied.not_givesUp {lostSlots : List Nat} (supplied : s.Supplied) (layout : Layout w config s)
    (orderly : s.Orderly) (books : Books config s [] lostSlots) (empty : s.prefixCache.pairs = [])
    (nodup : (tables s.active).Nodup) (sized : 0 < s.blocks.blockSize)
    (prompts : ∀ job ∈ s.active, job.state.finished = false → job.state.prompt ≠ []) : ¬ s.GivesUp := by
  rintro ⟨job, starved, pc, member, full, nobody⟩
  have alone := victim?_eq_none nobody
  obtain ⟨short, few⟩ := BlockTable.ensureCapacity_eq_none_iff.mp full
  have fits := supplied.fits job member (by rw [pc]; rfl)
  have running := orderly.running job member (by rw [pc]; simp [Pc.running, Pc.sampled])
  have accounts : s.blocks.Accounts (tables s.active) := by
    have all := books.ledger.accounts
    rw [PrefixCache.pinned, empty] at all
    simpa using all
  obtain ⟨before, after, here⟩ := List.append_of_mem member
  cases rest : before ++ after with
  | nil =>
    -- the job has the pool to itself
    obtain ⟨rfl, rfl⟩ := List.append_eq_nil_iff.mp rest
    have total := accounts.total_le
    rw [here] at total
    simp only [List.nil_append, tables_cons, tables_nil, List.append_nil] at total
    simp only [BlockTable.nBlocks] at short few
    omega
  | cons other others =>
    have beside : other ∈ before ++ after := by simp [rest]
    obtain ⟨active, elsewhere⟩ := mem_beside layout.nodup here beside
    have ended := (alone other active).resolve_right elsewhere
    obtain ⟨whole, n, large⟩ := supplied.spent (by rw [pc]; rfl) other active ended
    -- the two tables have no block in common
    have both : other.blocks.nBlocks + job.blocks.nBlocks ≤ s.blocks.total := by
      have inside := accounts.length_add_free_le nodup (List.Subset.refl _)
      have held : other.blocks.nBlocks ≤ (tables (before ++ after)).length := by
        have inner : other.blocks.blocks.Sublist (tables (before ++ after)) :=
          List.sublist_flatten_of_mem (List.mem_map_of_mem beside)
        exact inner.length_le
      rw [here] at inside
      simp only [tables_append, tables_cons, List.length_append] at inside held
      simp only [BlockTable.nBlocks] at held ⊢
      omega
    have origin := layout.origin job member
    have positive : 0 < job.state.usage.promptTokens := by
      rw [origin.promptTokens]
      exact List.length_pos_iff.mpr (prompts job member running)
    have prompt := (supplied.covered job member running).prompt
    rcases BlockAllocator.blocksFor_pos_or sized positive
      (by rw [origin.promptTokens]; exact origin.prompt_lt) with some | atMost
    · omega
    · have one := atMost n
      omega

end Continuous

namespace Server

variable {σ : Type} {w : World σ} {config : SchedulerConfig} {capacity : Nat} {world : σ}
variable {past : List Event} {s : Server (Continuous σ)}

/-- What is accepted and not refused has a prompt, and so has every job that runs. -/
theorem prompts_run (run : (continuous w config capacity world).Run past s)
    (prompts : ∀ r ∈ s.accepted, ¬ r.Refused w → w.tokenize r.spec.prompt true ≠ []) :
    ∀ job ∈ s.thread.active, job.state.finished = false → job.state.prompt ≠ [] := by
  intro job active running
  have inside : job ∈ s.thread.crew := List.mem_append_left _ active
  have origin := (settled_run run).layout.origin job active
  rw [origin.prompt]
  exact prompts _ (requested_run run job inside) (origin.fits ((limited_run run).1.roster job inside) running)

theorem supplied_run (engine : w.OnlyDecodeThrows) (off : config.prefixCaching = false)
    (run : (continuous w config capacity world).Run past s)
    (prompts : ∀ r ∈ s.accepted, ¬ r.Refused w → w.tokenize r.spec.prompt true ≠ []) :
    s.thread.Supplied ∧ (tables s.thread.active).Nodup ∧ ¬ s.thread.GivesUp := by
  have goesOn : ∀ {past s}, (continuous w config capacity world).Run past s →
      (∀ r ∈ s.accepted, ¬ r.Refused w → w.tokenize r.spec.prompt true ≠ []) → s.thread.Supplied →
      (tables s.thread.active).Nodup → ¬ s.thread.GivesUp := by
    intro past s run prompts supplied nodup
    have books := books_spared engine (.inr off) (spares_run off run)
    exact supplied.not_givesUp (settled_run run).layout (orderly_run run) books (uncached_run off run) nodup
      (sized_run run) (prompts_run run prompts)
  have kept : s.thread.Supplied ∧ (tables s.thread.active).Nodup := by
    refine continuous_thread_invariant ?_ ?_ (accepting_each run.guarded_true prompts)
    · refine ⟨⟨?_, ?_, ?_⟩, .nil⟩ <;> simp [Continuous.start]
    · rintro past s thread queue earlier settled ⟨supplied, nodup⟩ move ⟨_, prompts⟩
      have earlier := earlier.of_guarded
      have books := books_spared engine (.inr off) (spares_run off earlier)
      have after : thread.Supplied := supplied.move settled.layout (orderly_run earlier) (sized_run earlier)
        (goesOn earlier prompts supplied nodup) move
      have apart : (tables thread.active).Nodup :=
        books.tables_nodup settled.layout (construct_prefixCaching off) nodup move
      exact ⟨⟨after.covered, after.spent, after.fits⟩, apart⟩
  obtain ⟨supplied, nodup⟩ := kept
  exact ⟨supplied, nodup, goesOn run prompts supplied nodup⟩

end Server

/-- With prefix caching off, an engine that throws in `decode` at most and prompts of at least one
    token, the eviction loop never ends for want of somebody to evict.  So after the last sweep of a
    turn every running sequence has the blocks of its tokens, if their number is counted without a
    wrap. -/
theorem exhaustion_resolved {σ : Type} (w : World σ) (config : SchedulerConfig) (capacity : Nat) (world : σ)
    (engine : w.OnlyDecodeThrows) (off : config.prefixCaching = false) (past : List Event)
    (s : Server (Continuous σ)) (run : (Server.continuous w config capacity world).Run past s)
    (prompts : ∀ r ∈ s.accepted, w.tokenize r.spec.prompt true ≠ []) :
    ¬ s.thread.GivesUp ∧
      (s.thread.pc = .takeWork → ∀ job ∈ s.thread.active, job.state.finished = false →
        job.state.usage.promptTokens + job.state.usage.completionTokens <
          2 ^ 32 - (config.construct w.caps).blockSize →
        (config.construct w.caps).blocksOf
          (job.state.usage.promptTokens + job.state.usage.completionTokens) ≤ job.blocks.nBlocks) := by
  obtain ⟨supplied, _, goesOn⟩ := Server.supplied_run engine off run fun r member _ => prompts r member
  refine ⟨goesOn, ?_⟩
  intro pc job active running small
  have tokens := (supplied.covered job active running).tokens
  rw [pc, Job.needed, (blocksFor_toUint32 (Server.pool_run run).2 (config.construct_blockSize_pos w.caps)
    (by omega) _).1 (by omega)] at tokens
  simpa [Pc.unserved, Pc.serving, Pc.short] using tokens

/-- Two requests in a pool of five blocks.  The younger one starves and evicts the older, and then
    has a block for each of its tokens. -/
theorem exhaustion_resolved_letter :
    Script.letter.world.OnlyDecodeThrows ∧ (SchedulerConfig.pair 5).prefixCaching = false ∧
      ∃ past s, (Server.continuous Script.letter.world (.pair 5) 4 fun _ => none).Run past s ∧
        (∀ r ∈ s.accepted, Script.letter.world.tokenize r.spec.prompt true ≠ []) ∧
        s.thread.pc = .takeWork ∧ .preempt 0 0 1 2 ∈ past ∧ ¬ s.thread.GivesUp ∧
        ∃ job ∈ s.thread.active, job.state.finished = false ∧
          ((SchedulerConfig.pair 5).construct Script.letter.world.caps).blocksOf
            (job.state.usage.promptTokens + job.state.usage.completionTokens) ≤ job.blocks.nBlocks := by
  have engine := Script.letter.world_onlyDecodeThrows
  obtain ⟨past, s, run, prompts, pc, preempted, job, active, running, small⟩ : ∃ past s,
      (Server.continuous Script.letter.world (.pair 5) 4 fun _ => none).Run past s ∧
      ((∀ r ∈ s.accepted, Script.letter.world.tokenize r.spec.prompt true ≠ []) ∧
        s.thread.pc = .takeWork ∧ .preempt 0 0 1 2 ∈ past ∧
        ∃ job ∈ s.thread.active, job.state.finished = false ∧
          job.state.usage.promptTokens + job.state.usage.completionTokens <
            2 ^ 32 - ((SchedulerConfig.pair 5).construct Script.letter.world.caps).blockSize) :=
    Server.exists_run ([.push { id := 0, spec := { prompt := [1], maxTokens := 4 } },
      .push { id := 1, spec := { prompt := [1], maxTokens := 4 } }] ++
      List.replicate 35 .run) rfl rfl (by decide +kernel)
  obtain ⟨goesOn, covered⟩ := exhaustion_resolved _ _ _ _ engine rfl past s run prompts
  exact ⟨engine, rfl, past, s, run, prompts, pc, preempted, goesOn, job, active, running,
    covered pc job active running small⟩

end MicroVllm
