import Mathlib.Logic.Relation
import MicroVllm.Scheduler.Ledger

/-! # The books of the continuous loop

What the ledger says of a whole thread, kept by every move of the loop.  Blocks and donor
slots can only be lost where a job writes its prefix over a donor; a run in which no job
does that loses nothing, and its books balance.
-/

namespace MicroVllm

open Transition (Machine)

/-- The blocks that the page tables of some jobs hold. -/
def tables (jobs : List Job) : List Nat := jobs.flatMap fun job => job.blocks.blocks

@[simp] theorem tables_nil : tables [] = [] := rfl

@[simp] theorem tables_cons (job : Job) (jobs : List Job) :
    tables (job :: jobs) = job.blocks.blocks ++ tables jobs := List.flatMap_cons

@[simp] theorem tables_append (jobs jobs' : List Job) :
    tables (jobs ++ jobs') = tables jobs ++ tables jobs' := List.flatMap_append

theorem mem_tables {jobs : List Job} {job : Job} {b : Nat} (member : job ∈ jobs)
    (held : b ∈ job.blocks.blocks) : b ∈ tables jobs :=
  List.mem_flatMap.mpr ⟨job, member, held⟩

theorem tables_of_same {jobs jobs' : List Job} (same : List.Forall₂ Job.SameTable jobs jobs') :
    tables jobs' = tables jobs := by
  induction same with
  | nil => rfl
  | cons head _ ih => rw [tables_cons, tables_cons, head.blocks, ih]

/-- A live entry stands for the first blocks of an active job and the prompt in them. -/
structure Job.Backs (job : Job) (entry : Entry) : Prop where
  seq : job.state.seq = entry.seq
  prompt : job.state.prompt = entry.prompt
  blocks : entry.blocks <+: job.blocks.blocks
  some : entry.blocks ≠ []

theorem Job.Backs.of_same {job job' : Job} {entry : Entry} (backs : job.Backs entry)
    (same : job.Same job') (more : job.blocks.blocks <+: job'.blocks.blocks) : job'.Backs entry :=
  ⟨same.state.seq.trans backs.seq, same.state.prompt.trans backs.prompt, backs.blocks.trans more,
    backs.some⟩

namespace Continuous

variable {σ : Type} {w : World σ} {config : SchedulerConfig}

/-- The ledger of a thread.  A live entry holds no reference of its own: the active job it
    names has them. -/
structure Books (config : SchedulerConfig) (s : Continuous σ) (lostBlocks lostSlots : List Nat) :
    Prop where
  ledger : Ledger config s.blocks s.prefixCache (tables s.active) lostBlocks lostSlots
  distinct : ∀ job ∈ s.active, job.blocks.blocks.Nodup
  live : ∀ p ∈ s.prefixCache.pairs, p.2.retained = false →
    ∃ job ∈ s.active, job.Backs p.2

namespace Books

variable {s s' : Continuous σ} {q q' : RequestQueue} {lostBlocks lostSlots : List Nat}

/-- The blocks of every entry are held by an active job or pinned by the entry itself. -/
theorem entry_held (books : Books config s lostBlocks lostSlots) {p : UInt64 × Entry}
    (member : p ∈ s.prefixCache.pairs) {b : Nat} (inside : b ∈ p.2.blocks) :
    b ∈ tables s.active ++ s.prefixCache.pinned := by
  cases kept : p.2.retained with
  | true => exact List.mem_append_right _ (Ledger.pinned_of_retained member kept inside)
  | false =>
    obtain ⟨job, active, backs⟩ := books.live p member kept
    exact List.mem_append_left _ (mem_tables active (backs.blocks.subset inside))

theorem entry_nodup (books : Books config s lostBlocks lostSlots) {p : UInt64 × Entry}
    (member : p ∈ s.prefixCache.pairs) : p.2.blocks.Nodup := by
  cases kept : p.2.retained with
  | true => exact books.ledger.distinct p member kept
  | false =>
    obtain ⟨job, active, backs⟩ := books.live p member kept
    exact (books.distinct job active).sublist backs.blocks.sublist

/-- A move that touches neither the pool, nor an entry, nor a table. -/
theorem frame (books : Books config s lostBlocks lostSlots) (blocks : s'.blocks = s.blocks)
    (cache : s.prefixCache.SameEntries s'.prefixCache)
    (jobs : List.Forall₂ Job.SameTable s.active s'.active) : Books config s' lostBlocks lostSlots where
  ledger := by
    rw [blocks, tables_of_same jobs]
    exact books.ledger.touch cache
  distinct job member := by
    obtain ⟨old, active, same⟩ := Lists.exists_of_forall₂_right jobs member
    rw [same.blocks]
    exact books.distinct old active
  live p member kept := by
    rw [cache.pairs] at member
    obtain ⟨old, active, backs⟩ := books.live p member kept
    obtain ⟨job, active', same⟩ := Lists.exists_of_forall₂_left jobs active
    exact ⟨job, active', backs.of_same same.toSame (by simp [same.blocks])⟩

theorem frame_jobs (books : Books config s lostBlocks lostSlots) (blocks : s'.blocks = s.blocks)
    (cache : s'.prefixCache = s.prefixCache) (jobs : List.Forall₂ Job.SameTable s.active s'.active) :
    Books config s' lostBlocks lostSlots :=
  books.frame blocks (by rw [cache]; exact ⟨rfl, rfl, rfl⟩) jobs

theorem frame_all (books : Books config s lostBlocks lostSlots) (blocks : s'.blocks = s.blocks)
    (cache : s'.prefixCache = s.prefixCache) (active : s'.active = s.active) :
    Books config s' lostBlocks lostSlots :=
  books.frame_jobs blocks cache (by rw [active]; exact List.forall₂_same.mpr fun j _ => .refl j)

/-- The ledger with the table of one active job set apart. -/
theorem apart (books : Books config s lostBlocks lostSlots) {before after : List Job} {job : Job}
    (here : s.active = before ++ job :: after) :
    Ledger config s.blocks s.prefixCache (job.blocks.blocks ++ (tables before ++ tables after))
      lostBlocks lostSlots := by
  refine books.ledger.congr fun b => ?_
  simp only [here, tables_append, tables_cons, List.count_append]
  omega

/-- The table of one job grows. -/
theorem grow (books : Books config s lostBlocks lostSlots) {before after : List Job} {job job' : Job}
    {n : Nat} (here : s.active = before ++ job :: after) (same : job.Same job')
    (grown : job.blocks.ensureCapacity n s.blocks = some (job'.blocks, s'.blocks))
    (cache : s'.prefixCache = s.prefixCache) (active : s'.active = before ++ job' :: after) :
    Books config s' lostBlocks lostSlots := by
  have member : job ∈ s.active := by rw [here]; simp
  obtain ⟨ledger, extra, appended, nodup, fresh⟩ := (books.apart here).grow grown
  refine ⟨?_, ?_, ?_⟩
  · rw [cache, active]
    refine ledger.congr fun b => ?_
    simp only [tables_append, tables_cons, List.count_append]
    omega
  · intro j inside
    rw [active] at inside
    rcases Lists.mem_of_around here inside with rfl | old
    · rw [appended]
      apply (books.distinct job member).append nodup
      intro b old new
      exact fresh b new (List.mem_append_left _ old)
    · exact books.distinct j old
  · intro p inside kept
    rw [cache] at inside
    obtain ⟨j, old, backs⟩ := books.live p inside kept
    rw [here, List.mem_append, List.mem_cons] at old
    rw [active]
    rcases old with earlier | rfl | later
    · exact ⟨j, List.mem_append_left _ earlier, backs⟩
    · refine ⟨job', by simp, backs.of_same same ?_⟩
      rw [appended]
      exact List.prefix_append _ _
    · exact ⟨j, List.mem_append_right _ (List.mem_cons_of_mem _ later), backs⟩

/-- A job with a table of its own joins the batch. -/
theorem join (books : Books config s lostBlocks lostSlots) (job : Job)
    (ledger : Ledger config s'.blocks s'.prefixCache (job.blocks.blocks ++ tables s.active)
      lostBlocks lostSlots)
    (nodup : job.blocks.blocks.Nodup) (cache : s'.prefixCache.pairs = s.prefixCache.pairs)
    (active : s'.active = s.active ++ [job]) : Books config s' lostBlocks lostSlots where
  ledger := by
    rw [active]
    refine ledger.congr fun b => ?_
    simp only [tables_append, tables_cons, tables_nil, List.append_nil, List.count_append]
    omega
  distinct j inside := by
    rw [active, List.mem_append, List.mem_singleton] at inside
    rcases inside with old | rfl
    · exact books.distinct j old
    · exact nodup
  live p inside kept := by
    rw [cache] at inside
    obtain ⟨j, old, backs⟩ := books.live p inside kept
    exact ⟨j, by rw [active]; exact List.mem_append_left _ old, backs⟩

/-- What an admitted job gets from the pool. -/
theorem fits (books : Books config s lostBlocks lostSlots) {job : Job} {table : BlockTable}
    {blocks : BlockAllocator} (fits : s.Fits job table blocks) (empty : job.blocks.blocks = []) :
    Ledger config blocks s.prefixCache (table.blocks ++ tables s.active) lostBlocks lostSlots ∧
      table.blocks.Nodup ∧
      ∀ b ∈ table.blocks, b ∉ tables s.active ++ (s.prefixCache.pinned ++ lostBlocks) := by
  have start : Ledger config s.blocks s.prefixCache (job.blocks.blocks ++ tables s.active)
      lostBlocks lostSlots := by rw [empty]; exact books.ledger
  obtain ⟨ledger, extra, appended, nodup, fresh⟩ := start.grow fits.grown
  rw [empty, List.nil_append] at appended fresh
  subst appended
  exact ⟨ledger, nodup, fresh⟩

/-- A job leaves the batch, with its entries. -/
theorem leave (books : Books config s lostBlocks lostSlots) {before after : List Job} {job : Job}
    {lostBlocks' lostSlots' : List Nat} (here : s.active = before ++ job :: after)
    (ledger : Ledger config s'.blocks s'.prefixCache (tables before ++ tables after)
      lostBlocks' lostSlots')
    (gone : ∀ p ∈ s'.prefixCache.pairs, p.2.retained = false →
      p ∈ s.prefixCache.pairs ∧ p.2.seq ≠ job.state.seq)
    (active : s'.active = before ++ after) : Books config s' lostBlocks' lostSlots' where
  ledger := by rw [active, tables_append]; exact ledger
  distinct j inside := by
    rw [active] at inside
    exact books.distinct j (Lists.mem_of_without here inside)
  live p inside kept := by
    obtain ⟨old, other⟩ := gone p inside kept
    obtain ⟨j, before', backs⟩ := books.live p old kept
    rw [here, List.mem_append, List.mem_cons] at before'
    rw [active]
    rcases before' with earlier | rfl | later
    · exact ⟨j, List.mem_append_left _ earlier, backs⟩
    · exact absurd backs.seq.symm other
    · exact ⟨j, List.mem_append_right _ later, backs⟩

/-- An active job writes an entry for the first blocks of its table. -/
theorem publish (books : Books config s lostBlocks lostSlots) {job : Job} (active : job ∈ s.active)
    (hash : UInt64) {entry : Entry} (live : entry.retained = false) (backs : job.Backs entry)
    (blocks : s'.blocks = s.blocks) (cache : s'.prefixCache = s.prefixCache.insert hash entry)
    (jobs : s'.active = s.active) :
    Books config s' (s.prefixCache.underKey hash PrefixCache.pinnedBy ++ lostBlocks)
      (s.prefixCache.underKey hash PrefixCache.slotBy ++ lostSlots) where
  ledger := by
    rw [blocks, cache, jobs]
    exact books.ledger.publish hash live
  distinct j inside := by
    rw [jobs] at inside
    exact books.distinct j inside
  live p inside kept := by
    rw [cache, PrefixCache.insert_pairs, List.mem_cons] at inside
    rw [jobs]
    rcases inside with rfl | old
    · exact ⟨job, active, backs⟩
    · exact books.live p (List.mem_of_mem_filter old) kept

end Books

/-! ## Where something can be lost -/

instance (config : SchedulerConfig) (job : Job) (blockSize : Nat) : Decidable (Offers config job blockSize) :=
  decidable_of_iff (config.prefixCaching = true ∧ job.state.prefilling = false ∧ 0 < job.offeredBlocks blockSize ∧
    job.offeredBlocks blockSize ≤ job.blocks.nBlocks)
    ⟨fun ⟨caching, prefilled, whole, backed⟩ => ⟨caching, prefilled, whole, backed⟩,
      fun offers => ⟨offers.caching, offers.prefilled, offers.whole, offers.backed⟩⟩

/-- The job goes on with this step, gets the blocks for it and publishes its prefix. -/
def publishes (w : World σ) (config : SchedulerConfig) (s : Continuous σ) (step : GenStep) (job : Job) : Bool :=
  match job.state.accept w step s.port with
  | (false, _, _) => false
  | (true, state, _) =>
    match job.blocks.ensureCapacity { job with state := state }.needed s.blocks with
    | none => false
    | some (table, blocks) =>
      Decidable.decide (Offers config { job with state := state, blocks := table } blocks.blockSize)

/-- The job for which the next turn of a loop writes to the prefix cache, unless the engine refuses the copy. -/
def writer? (w : World σ) (config : SchedulerConfig) (s : Continuous σ) : Option Job :=
  match s.pc with
  | .accept (slot :: _) (step :: _) _ => (findJob slot s.active).filter (s.publishes w config step)
  | .sweep i _ => s.active[i]?.filter fun job =>
      job.state.finished && Decidable.decide (Scheduler.Retainable config job)
  | _ => none

/-- No donor sits under the key that this job writes. -/
def SparesDonors (w : World σ) (config : SchedulerConfig) (s : Continuous σ) : Prop :=
  ∀ job ∈ s.writer? w config, s.prefixCache.NoDonorAt (Scheduler.keptHash config job)

instance (c : PrefixCache) (hash : UInt64) : Decidable (c.NoDonorAt hash) :=
  inferInstanceAs (Decidable (∀ p ∈ c.pairs, p.1 = hash → p.2.retained = false))

instance (w : World σ) (config : SchedulerConfig) (s : Continuous σ) : Decidable (s.SparesDonors w config) :=
  inferInstanceAs (Decidable (∀ job ∈ s.writer? w config, s.prefixCache.NoDonorAt (Scheduler.keptHash config job)))

/-- A job publishes and retains as many tokens: the whole blocks of its prompt. -/
theorem offer_nTokens {job : Job} (small : job.state.prompt.length < 2 ^ 32) :
    (job.offer config.blockSize).nTokens = Scheduler.wholeTokens config job.state.prompt := by
  have few : job.state.prompt.length / config.blockSize ≤ job.state.prompt.length := Nat.div_le_self _ _
  have within : job.state.prompt.length / config.blockSize * config.blockSize ≤
      job.state.prompt.length := Nat.div_mul_le_self _ _
  simp only [Job.offer, Job.offeredBlocks, Scheduler.wholeTokens]
  rw [toUint32_of_lt (n := job.state.prompt.length) small, toUint32_of_lt (n := _ / _) (by omega),
    toUint32_of_lt (by omega)]

theorem offerHash_eq {job : Job} (small : job.state.prompt.length < 2 ^ 32) :
    offerHash job config.blockSize = Scheduler.keptHash config job := by
  rw [offerHash, offer_nTokens small, Scheduler.keptHash]

theorem findJob_around {before after : List Job} {job : Job}
    (nodup : (seqs (before ++ job :: after)).Nodup) :
    findJob job.state.seq (before ++ job :: after) = some job := by
  obtain ⟨notBefore, _⟩ := seqs_around nodup
  apply List.find?_eq_some_iff_append.mpr
  refine ⟨by simp, before, after, rfl, ?_⟩
  intro j earlier
  simpa using notBefore j earlier

/-- The entry a job offers stands for its first blocks. -/
theorem Offers.backs {job : Job} {blockSize : Nat} (offers : Offers config job blockSize) :
    job.Backs (job.offer blockSize) where
  seq := rfl
  prompt := rfl
  blocks := List.take_prefix _ _
  some empty := by
    have none := congrArg List.length empty
    have whole := offers.whole
    have backed := offers.backed
    simp only [Job.offer, List.length_take, List.length_nil, BlockTable.nBlocks] at none backed
    omega

/-- Every move keeps books.  Blocks are lost only when a job writes over a donor or the thread
    dies, donor slots also when the engine throws in a method other than `decode`. -/
theorem Books.move {s s' : Continuous σ} {q q' : RequestQueue} {lostBlocks lostSlots : List Nat}
    (books : Books config s lostBlocks lostSlots) (layout : Layout w config s)
    (move : Move w config s q s' q') :
    ∃ lostBlocks' lostSlots', Books config s' lostBlocks' lostSlots' ∧
      (s.SparesDonors w config → (w.OnlyDecodeThrows ∨ ∀ message, s'.pc ≠ .crashed message) →
        lostBlocks' = lostBlocks ∧ (w.OnlyDecodeThrows → lostSlots' = lostSlots)) := by
  have same : Books config s' lostBlocks lostSlots →
      ∃ lostBlocks' lostSlots', Books config s' lostBlocks' lostSlots' ∧
        (s.SparesDonors w config → (w.OnlyDecodeThrows ∨ ∀ message, s'.pc ≠ .crashed message) →
          lostBlocks' = lostBlocks ∧ (w.OnlyDecodeThrows → lostSlots' = lostSlots)) :=
    fun books => ⟨lostBlocks, lostSlots, books, fun _ _ => ⟨rfl, fun _ => rfl⟩⟩
  have inHand : ∀ job, s.pc = .reserve job → job.blocks.blocks = [] := by
    intro job pc
    obtain ⟨request, slot, slots, rfl, _⟩ := layout.hand job pc
    rfl
  cases move with
  | @adoptCrash job table blocks cache message port hit pc fits touched copied =>
    -- the blocks of the job in hand are nobody's when the thread dies
    obtain ⟨ledger, _⟩ := books.fits fits (inHand job pc)
    have lost : Ledger config blocks s.prefixCache (tables s.active) (table.blocks ++ lostBlocks)
        lostSlots :=
      { ledger with
        accounts := ledger.accounts.congr fun b => by
          simp only [List.count_append]
          omega }
    refine ⟨table.blocks ++ lostBlocks, lostSlots, ⟨lost.touch touched, books.distinct, ?_⟩, ?_⟩
    · rw [touched.pairs]
      exact books.live
    · intro _ reason
      rcases reason with engine | alive
      · exact absurd copied engine.copy_ne_error
      · exact absurd rfl (alive message)
  | giveUp pc short evicted | reclaimDonor pc here full evicted =>
    refine same ⟨books.ledger.reclaim evicted, books.distinct, ?_⟩
    exact fun p member => books.live p (Scheduler.reclaim_pairs evicted member)
  | @placeFailed job pc failed =>
    refine same (books.join job ?_ ?_ rfl rfl)
    · rw [inHand job pc]
      exact books.ledger
    · simp [inHand job pc]
  | @place job table blocks cache pc fits touched =>
    obtain ⟨ledger, nodup, _⟩ := books.fits fits (inHand job pc)
    exact same (books.join { job with blocks := table } (ledger.touch touched) nodup
      touched.pairs rfl)
  | @adopt job table blocks cache hit port pc fits touched caching found positive within copied =>
    obtain ⟨ledger, nodup, fresh⟩ := books.fits fits (inHand job pc)
    have held : ∀ b ∈ hit.blocks, b ∈ tables s.active ++ (s.prefixCache.pinned ++ lostBlocks) := by
      intro b inside
      rcases List.mem_append.mp (books.entry_held found inside) with active | pinned
      · exact List.mem_append_left _ active
      · exact List.mem_append_right _ (List.mem_append_left _ pinned)
    have shared := ledger.share hit.blocks fun b inside => by
      rw [List.append_assoc]
      exact List.mem_append_right _ (held b inside)
    refine same (books.join (inherit job table hit) ?_ ?_ touched.pairs rfl)
    · refine (shared.touch touched).congr fun b => ?_
      simp only [inherit, List.count_append]
      omega
    · refine nodup.append (books.entry_nodup found) ?_
      intro b own inside
      exact fresh b own (held b inside)
  | buildNothing | decode => exact same (books.frame_jobs rfl rfl (same_build _ _ _))
  | decodeFail => exact same (books.frame_jobs rfl rfl (same_decodeFail _ _ _ s))
  | acceptFail => exact same (books.frame_jobs rfl rfl (same_failAll _ _))
  | acceptFinish pc here accepted =>
    refine same (books.frame_jobs rfl rfl ?_)
    rw [here]
    exact Lists.forall₂_around .refl ⟨same_finish (same_accept accepted) _, rfl⟩
  | acceptStarve pc here accepted =>
    refine same (books.frame_jobs rfl rfl ?_)
    rw [here]
    exact Lists.forall₂_around .refl ⟨same_accept accepted, rfl⟩
  | resolveFail pc here large failed =>
    refine same (books.frame_jobs rfl rfl ?_)
    rw [here, ← failed]
    refine Lists.forall₂_around .refl ⟨⟨rfl, ?_⟩, rfl⟩
    exact ((SequenceState.fail_same _ _ _).trans (SequenceState.finish_same _ _)).toSameOrigin
  | acceptGrow pc here accepted grown =>
    exact same (books.grow here (same_accept accepted) grown rfl rfl)
  | @acceptPublish sampling step steps grewShort before job after state port table blocks job' pc here
      accepted grown published offers =>
    subst published
    have sameJob : job.Same { job with state := state, blocks := table } := same_accept accepted
    have grew : Books config { s with
        blocks := blocks
        active := before ++ { job with state := state, blocks := table } :: after }
        lostBlocks lostSlots := books.grow here sameJob grown rfl rfl
    refine ⟨_, _, grew.publish (by simp)
      (offerHash { job with state := state, blocks := table } blocks.blockSize) rfl
      offers.backs rfl rfl rfl, ?_⟩
    intro spares _
    -- the key is the one the condition speaks of: both count the whole blocks of the prompt
    have origin := layout.origin job (by rw [here]; simp)
    have small : state.prompt.length < 2 ^ 32 := by
      rw [show state.prompt = job.state.prompt from sameJob.state.prompt]
      exact Nat.lt_trans origin.prompt_lt (by decide)
    have key : offerHash { job with state := state, blocks := table } blocks.blockSize =
        Scheduler.keptHash config job := by
      rw [show blocks.blockSize = config.blockSize from grew.ledger.blockSize, offerHash_eq small]
      simp only [Scheduler.keptHash]
      rw [show state.prompt = job.state.prompt from sameJob.state.prompt]
    have found : s.writer? w config = some job := by
      simp only [writer?, pc]
      rw [here, findJob_around (here ▸ layout.nodup)]
      simp only [Option.filter_some, publishes, accepted, grown, decide_eq_true offers, if_true]
    have nothing := Ledger.underKey_of_noDonor (spares job found)
    rw [key]
    rw [nothing.1, nothing.2]
    exact ⟨rfl, fun _ => rfl⟩
  | @sweepRetire starved before job after pc here finished =>
    have active : job ∈ s.active := by rw [here]; simp
    obtain ⟨lostBlocks', lostSlots', ledger, keeps⟩ := (books.apart here).retire (w := w)
      (m := s.toScheduler) (layout.lt_of_active active) (books.distinct job active)
    refine ⟨lostBlocks', lostSlots', books.leave here ledger ?_ rfl, ?_⟩
    · intro p member live
      rcases Scheduler.retire_pairs job s.toScheduler member with old | ⟨slot, rfl, _⟩
      · exact old
      · cases live
    · intro spares _
      refine keeps fun retainable => spares job ?_
      simp [writer?, pc, here, finished, retainable]
  | reclaimGrow pc here grown | preemptGrow pc here grown =>
    exact same (books.grow here (.withBlocks _ _) grown rfl rfl)
  | @preemptEvict slot starved job before victim after pc starving named full here unfinished =>
    have active : victim ∈ s.active := by rw [here]; simp
    have ledger := ((books.apart here).evictSequence _
      (books.ledger.outside_of_batch (layout.lt_of_active active))).giveBack
    refine same (books.leave here ledger ?_ rfl)
    intro p member _
    rw [PrefixCache.evictSequence_pairs, List.mem_filter] at member
    simpa using member
  | _ => exact same (books.frame_all rfl rfl rfl)

end Continuous

/-! ## Balanced books -/

/-- The retained entries. -/
def PrefixCache.donors (c : PrefixCache) : List Entry :=
  (c.pairs.map Prod.snd).filter fun entry => entry.retained

namespace PrefixCache

variable {c : PrefixCache}

theorem donorsNamed_eq : c.donorsNamed = c.donors.map Entry.seq := by
  simp only [donorsNamed, donors]
  induction c.pairs with
  | nil => rfl
  | cons p pairs ih =>
    rw [List.flatMap_cons, ih, List.map_cons]
    cases kept : p.2.retained <;> simp [slotBy, kept]

/-- An entry that lists no block twice counts once for each block it lists. -/
theorem count_pinned (distinct : ∀ p ∈ c.pairs, p.2.retained = true → p.2.blocks.Nodup) (b : Nat) :
    c.pinned.count b = c.donors.countP fun entry => b ∈ entry.blocks := by
  simp only [pinned, donors]
  revert distinct
  induction c.pairs with
  | nil => exact fun _ => rfl
  | cons p pairs ih =>
    intro distinct
    have rest := ih (fun p' member => distinct p' (List.mem_cons_of_mem _ member))
    rw [List.flatMap_cons, List.count_append, rest, List.map_cons]
    cases kept : p.2.retained with
    | false => simp [pinnedBy, kept]
    | true =>
      have once := distinct p List.mem_cons_self kept
      rw [List.filter_cons_of_pos (by simpa using kept), List.countP_cons]
      simp only [pinnedBy, kept, if_true, decide_eq_true_eq]
      rw [List.Nodup.count once]
      omega

end PrefixCache

/-- With no table held and no donor left, every block is free. -/
theorem Ledger.freeBlocks_eq {config : SchedulerConfig} {a : BlockAllocator} {c : PrefixCache}
    {lostSlots : List Nat} (ledger : Ledger config a c [] [] lostSlots)
    (live : ∀ p ∈ c.pairs, p.2.retained = false) : a.freeBlocks = config.kvBlocks := by
  have nothing : c.pinned = [] := by
    rw [PrefixCache.pinned, List.flatMap_eq_nil_iff]
    intro p member
    simp [PrefixCache.pinnedBy, live p member]
  have accounts := ledger.accounts
  rw [nothing] at accounts
  rw [accounts.freeBlocks_of_nil, ledger.total]

namespace Continuous

variable {σ : Type} {config : SchedulerConfig} {s : Continuous σ}

/-- When nothing runs and no prefix is retained, every block is free. -/
def Intact (s : Continuous σ) : Prop :=
  s.active = [] → (∀ p ∈ s.prefixCache.pairs, p.2.retained = false) →
    s.blocks.freeBlocks = s.blocks.total

instance (s : Continuous σ) : Decidable s.Intact :=
  inferInstanceAs (Decidable (s.active = [] → (∀ p ∈ s.prefixCache.pairs, p.2.retained = false) →
    s.blocks.freeBlocks = s.blocks.total))

theorem Books.intact {lostSlots : List Nat} (books : Books config s [] lostSlots) : s.Intact := by
  intro alone live
  have ledger := books.ledger
  rw [alone, tables_nil] at ledger
  rw [ledger.total]
  exact ledger.freeBlocks_eq live

end Continuous

/-- Reclaiming donors until there is none left, with no table held, frees every block. -/
theorem Ledger.exists_reclaimed {σ : Type} {w : World σ} {config : SchedulerConfig}
    {lostSlots : List Nat} {m : Scheduler σ} (ledger : Ledger config m.blocks m.prefixCache [] [] lostSlots) :
    ∃ m', Relation.ReflTransGen (fun m m' => m.reclaimDonorBlocks w = some m') m m' ∧
      m'.prefixCache.evictLruRetained = none ∧ m'.blocks.freeBlocks = config.kvBlocks := by
  -- each turn drops an entry
  induction size : m.prefixCache.entries.length using Nat.strongRecOn generalizing m with
  | ind n ih =>
    subst size
    cases evicted : m.prefixCache.evictLruRetained with
    | none =>
      exact ⟨m, .refl, evicted, ledger.freeBlocks_eq (PrefixCache.evictLruRetained_eq_none evicted)⟩
    | some found =>
      obtain ⟨donor, cache⟩ := found
      have reclaimed : m.reclaimDonorBlocks w =
          some (Scheduler.releaseDonor w donor { m with prefixCache := cache }) := by
        simp [Scheduler.reclaimDonorBlocks, evicted]
      obtain ⟨m', steps, last⟩ := ih _ (PrefixCache.evictLruRetained_length evicted)
        (ledger.reclaim reclaimed) rfl
      exact ⟨m', .head reclaimed steps, last⟩

namespace Continuous

variable {σ : Type} {w : World σ} {config : SchedulerConfig}

/-- Every donor slot is free, once, or named by exactly one donor; a block has a reference
    for each page table it is in and one for each donor that lists it; and with nothing active,
    reclaiming all donors frees the whole pool. -/
structure Balanced (w : World σ) (config : SchedulerConfig) (s : Continuous σ) : Prop where
  slots : ∀ slot ∈ donorSlots config,
    (s.prefixCache.freeDonorSlots.count slot = 1 ∧
      s.prefixCache.donors.countP (·.seq = slot) = 0) ∨
    (s.prefixCache.freeDonorSlots.count slot = 0 ∧
      s.prefixCache.donors.countP (·.seq = slot) = 1)
  held : s.prefixCache.donorsHeld = s.prefixCache.donors.length
  refcounts : ∀ b, s.blocks.refcount b =
    (tables s.active).count b + s.prefixCache.donors.countP (fun entry => b ∈ entry.blocks)
  reclaimable : s.active = [] →
    ∃ m, Relation.ReflTransGen (fun m m' => m.reclaimDonorBlocks w = some m') s.toScheduler m ∧
      m.prefixCache.evictLruRetained = none ∧ m.blocks.freeBlocks = s.blocks.total

theorem Books.balanced {s : Continuous σ} (books : Books config s [] []) : s.Balanced w config where
  slots slot donor := by
    have once := books.ledger.donors.count_eq slot
    rw [List.count_eq_one_of_mem (donorSlots_nodup config) donor] at once
    have named : s.prefixCache.donorsNamed.count slot =
        s.prefixCache.donors.countP (·.seq = slot) := by
      rw [PrefixCache.donorsNamed_eq, List.count, List.countP_map]
      apply List.countP_congr
      simp
    simp only [List.count_append, List.count_nil, named] at once
    omega
  held := by
    have all := books.ledger.donors.length_eq
    have capacity := books.ledger.capacity
    simp only [List.length_append, List.length_nil, donorSlots, List.length_map, List.length_range,
      PrefixCache.donorsNamed_eq] at all
    rw [PrefixCache.donorsHeld]
    omega
  refcounts b := by
    rw [books.ledger.accounts.counts b, ← PrefixCache.count_pinned books.ledger.distinct]
    simp
  reclaimable idle := by
    have ledger := books.ledger
    rw [idle, tables_nil] at ledger
    rw [ledger.total]
    exact ledger.exists_reclaimed

end Continuous

/-- The donor slots lie above the batch slots.  They are placed before a batch size of zero
    becomes one, so with that size they only do if there are none. -/
def SchedulerConfig.Apart (config : SchedulerConfig) : Prop :=
  1 ≤ config.maxBatchSize ∨ config.prefixCaching = false

theorem SchedulerConfig.donorSlots_construct {caps : EngineCaps} {config : SchedulerConfig}
    (apart : config.Apart) : donorSlots (config.construct caps) = donorSlots (config.settle caps) := by
  rcases apart with batch | off
  · have positive : (config.settle caps).maxBatchSize ≠ 0 := by
      simp only [settle, clampDonors, sizePool, clampBatch]
      split
      · simp only
        omega
      · omega
    simp only [construct]
    rw [if_neg positive]
  · have none : (config.settle caps).prefixDonors = 0 := by
      have kept : ((config.clampBatch caps).sizePool caps).prefixCaching = false := by
        simp only [sizePool, clampBatch]
        split <;> exact off
      simp [settle, clampDonors, kept]
    have none' : (config.construct caps).prefixDonors = 0 := by
      simp only [construct]
      split <;> exact none
    rw [donorSlots, donorSlots, none, none']
    rfl

theorem SchedulerConfig.settle_blockSize_pos (caps : EngineCaps) (config : SchedulerConfig) :
    0 < (config.settle caps).blockSize := by
  simp only [settle, clampDonors, sizePool]
  split <;> omega

/-- The last step of construction leaves the pool as it was settled. -/
theorem SchedulerConfig.construct_pool (caps : EngineCaps) (config : SchedulerConfig) :
    (config.construct caps).blockSize = (config.settle caps).blockSize ∧
      (config.construct caps).kvBlocks = (config.settle caps).kvBlocks ∧
      (config.construct caps).prefixDonors = (config.settle caps).prefixDonors := by
  simp only [construct]
  split <;> exact ⟨rfl, rfl, rfl⟩

theorem SchedulerConfig.construct_blockSize_pos (caps : EngineCaps) (config : SchedulerConfig) :
    0 < (config.construct caps).blockSize := by
  rw [(config.construct_pool caps).1]
  exact config.settle_blockSize_pos caps

theorem Scheduler.make_pool {σ : Type} (w : World σ) (config : SchedulerConfig) (world : σ) :
    (make w config world).blocks.total = (config.construct w.caps).kvBlocks ∧
      (make w config world).blocks.blockSize = (config.construct w.caps).blockSize := by
  have size := config.settle_blockSize_pos w.caps
  rw [(config.construct_pool w.caps).1, (config.construct_pool w.caps).2.1]
  refine ⟨rfl, ?_⟩
  simp only [make, BlockAllocator.make]
  rw [if_neg (by omega)]

/-! ## The pool keeps its size -/

/-- Two states of one pool. -/
structure BlockAllocator.SamePool (a b : BlockAllocator) : Prop where
  total : b.total = a.total
  blockSize : b.blockSize = a.blockSize

namespace BlockAllocator.SamePool

variable {a b c : BlockAllocator}

theorem refl (a : BlockAllocator) : SamePool a a := ⟨rfl, rfl⟩

theorem trans (first : SamePool a b) (second : SamePool b c) : SamePool a c :=
  ⟨second.total.trans first.total, second.blockSize.trans first.blockSize⟩

theorem free (a : BlockAllocator) (blocks : List Nat) : SamePool a (a.free blocks) :=
  ⟨(free_frame blocks).1, (free_frame blocks).2⟩

theorem increfs (a : BlockAllocator) (blocks : List Nat) : SamePool a (blocks.foldl incref a) :=
  ⟨(increfs_frame blocks).1, (increfs_frame blocks).2.1⟩

theorem grown {t t' : BlockTable} {n : Nat} (grown : t.ensureCapacity n a = some (t', b)) : SamePool a b := by
  obtain ⟨_, _, _, _, total, blockSize⟩ := BlockTable.ensureCapacity_shape grown
  exact ⟨total, blockSize⟩

end BlockAllocator.SamePool

namespace Scheduler

variable {σ : Type} {w : World σ} {config : SchedulerConfig} {m m' : Scheduler σ}

theorem reclaim_pool (evicted : m.reclaimDonorBlocks w = some m') : m.blocks.SamePool m'.blocks := by
  unfold reclaimDonorBlocks at evicted
  split at evicted
  · cases evicted
  · cases evicted
    exact .free _ _

theorem takeSlot_pool {slot : Nat} (taken : m.takeSlot w = some (slot, m')) :
    m.blocks.SamePool m'.blocks := by
  unfold takeSlot at taken
  split at taken
  · cases taken
    exact .refl _
  · split at taken
    · cases taken
    · rename_i reclaimed
      split at taken
      · cases taken
      · cases taken
        have same := reclaim_pool reclaimed
        exact ⟨same.total, same.blockSize⟩

theorem Retains.pool {job : Job} (retains : Retains w config job m m') : m.blocks.SamePool m'.blocks := by
  cases retains with
  | nothing => exact .refl _
  | notBegun taken | notCopied taken =>
    have same := takeSlot_pool taken
    exact ⟨same.total, same.blockSize⟩
  | kept _ _ _ taken => exact (takeSlot_pool taken).trans (.increfs _ _)

theorem retire_pool (job : Job) (m : Scheduler σ) : m.blocks.SamePool (m.retire w config job).blocks := by
  have kept : m.blocks.SamePool (retainPrefix w config { job with state := (job.state.finish w m.port).1 }
      (m.dismiss w job)).blocks := (retainPrefix_retains w config _ (m.dismiss w job)).pool
  exact BlockAllocator.SamePool.trans ⟨kept.total, kept.blockSize⟩ (.free _ _)

end Scheduler

theorem Continuous.Move.pool {σ : Type} {w : World σ} {config : SchedulerConfig} {s s' : Continuous σ}
    {q q' : RequestQueue} (move : Move w config s q s' q') : s.blocks.SamePool s'.blocks := by
  cases move with
  | giveUp pc short evicted => exact Scheduler.reclaim_pool evicted
  | reclaimDonor pc here full evicted => exact Scheduler.reclaim_pool evicted
  | place pc fits => exact .grown fits.grown
  | adoptCrash pc fits => exact .grown fits.grown
  | adopt pc fits => exact (BlockAllocator.SamePool.grown fits.grown).trans (.increfs _ _)
  | acceptGrow pc here accepted grown => exact .grown grown
  | acceptPublish pc here accepted grown => exact .grown grown
  | sweepRetire => exact Scheduler.retire_pool _ _
  | reclaimGrow pc here grown => exact .grown grown
  | preemptGrow pc here grown => exact .grown grown
  | preemptEvict => exact .free _ _
  | _ => exact .refl _

namespace Server

variable {σ : Type} {w : World σ} {config : SchedulerConfig} {capacity : Nat} {world : σ}
variable {past : List Event} {s : Server (Continuous σ)}

theorem pool_run (run : (continuous w config capacity world).Run past s) :
    s.thread.blocks.total = (config.construct w.caps).kvBlocks ∧
      s.thread.blocks.blockSize = (config.construct w.caps).blockSize := by
  refine continuous_thread_invariant ?_ ?_ run.guarded_true
  · exact Scheduler.make_pool w config world
  · intro past s thread queue _ _ pool move _
    have same := move.pool
    exact ⟨same.total.trans pool.1, same.blockSize.trans pool.2⟩

theorem sized_run (run : (continuous w config capacity world).Run past s) : 0 < s.thread.blocks.blockSize := by
  rw [(pool_run run).2]
  exact config.construct_blockSize_pos w.caps

theorem books_start
    (placed : donorSlots (config.construct w.caps) = donorSlots (config.settle w.caps)) :
    (Continuous.start w config world).Books (config.construct w.caps) [] [] := by
  obtain ⟨total, size⟩ := Scheduler.make_pool w config world
  refine ⟨⟨size, total, (config.construct_pool w.caps).2.2.symm, ?_, ?_, ?_⟩, ?_, ?_⟩
  · exact BlockAllocator.accounts_make _ _
  · rw [placed]
    exact List.Perm.of_eq (List.append_nil _)
  all_goals simp [Continuous.start, Scheduler.make, PrefixCache.configureDonors, PrefixCache.pairs]

/-- Along every run the thread keeps books. -/
theorem books_run (apart : config.Apart)
    (run : (continuous w config capacity world).Run past s) :
    ∃ lostBlocks lostSlots, s.thread.Books (config.construct w.caps) lostBlocks lostSlots := by
  refine continuous_thread_invariant ?_ ?_ run.guarded_true
  · exact ⟨[], [], books_start (SchedulerConfig.donorSlots_construct apart)⟩
  · intro past s thread queue _ settled books move _
    obtain ⟨lostBlocks, lostSlots, books⟩ := books
    obtain ⟨lostBlocks', lostSlots', after, _⟩ := books.move settled.layout move
    exact ⟨lostBlocks', lostSlots', after.frame_all rfl rfl rfl⟩

/-- Along a run in which no job writes over a donor, nothing is ever lost. -/
theorem books_spared (engine : w.OnlyDecodeThrows) (apart : config.Apart)
    (run : ((continuous w config capacity world).guarded fun s _ _ =>
      s.thread.SparesDonors w (config.construct w.caps)).Run past s) :
    s.thread.Books (config.construct w.caps) [] [] := by
  refine continuous_thread_invariant ?_ ?_ run
  · exact books_start (SchedulerConfig.donorSlots_construct apart)
  · intro past s thread queue _ settled books move spares
    obtain ⟨lostBlocks', lostSlots', after, keeps⟩ := books.move settled.layout move
    obtain ⟨rfl, slots⟩ := keeps spares (.inl engine)
    obtain rfl := slots engine
    exact after.frame_all rfl rfl rfl

end Server

/-- With an engine that throws in `decode` at most, in every run in which no job publishes or
    retains its prefix under the key of a donor, the books balance in every state. -/
theorem donors_balanced {σ : Type} (w : World σ) (config : SchedulerConfig) (capacity : Nat)
    (world : σ) (engine : w.OnlyDecodeThrows) (batch : 1 ≤ config.maxBatchSize)
    (past : List Event) (s : Server (Continuous σ))
    (run : ((Server.continuous w config capacity world).guarded fun s _ _ =>
      s.thread.SparesDonors w (config.construct w.caps)).Run past s) : s.thread.Balanced w (config.construct w.caps) :=
  (Server.books_spared engine (.inl batch) run).balanced

/-- One request at a time, in a pool of eight blocks of two tokens. -/
def SchedulerConfig.single (donors : Nat) : SchedulerConfig :=
  { maxBatchSize := 1, blockSize := 2, kvBlocks := 8, prefixDonors := donors }

/-- Two requests of which the second starts like the first: both prefixes end up with
    donors. -/
theorem donors_balanced_letter :
    Script.letter.world.OnlyDecodeThrows ∧ 1 ≤ (SchedulerConfig.single 2).maxBatchSize ∧
      ∃ past s, ((Server.continuous Script.letter.world (.single 2) 4 fun _ => none).guarded
          fun s _ _ => s.thread.SparesDonors Script.letter.world
            ((SchedulerConfig.single 2).construct Script.letter.caps)).Run past s ∧
        s.thread.pc = .takeWork ∧ s.thread.active = [] ∧ s.thread.prefixCache.donors.length = 2 ∧
        s.thread.Balanced Script.letter.world
          ((SchedulerConfig.single 2).construct Script.letter.caps) := by
  have engine := Script.letter.world_onlyDecodeThrows
  obtain ⟨past, s, run, reached⟩ : ∃ past s,
      ((Server.continuous Script.letter.world (.single 2) 4 fun _ => none).guarded
        fun s _ _ => s.thread.SparesDonors Script.letter.world
          ((SchedulerConfig.single 2).construct Script.letter.caps)).Run past s ∧
      (s.thread.pc = .takeWork ∧ s.thread.active = [] ∧ s.thread.prefixCache.donors.length = 2) :=
    Server.exists_guarded ([.push { id := 0, spec := { prompt := [1, 2], maxTokens := 2 } },
      .push { id := 1, spec := { prompt := [1, 2, 3, 4], maxTokens := 2 } }] ++
      List.replicate 64 .run) rfl rfl (by decide +kernel)
  exact ⟨engine, by decide, past, s, run, reached.1, reached.2.1, reached.2.2,
    donors_balanced _ _ _ _ engine (by decide) past s run⟩

/-- Two requests with one prompt.  The second publishes over the donor that the first left
    behind: when both are done, donor slot 1 is neither free nor named by a donor, and block 0 has
    a reference that nobody holds. -/
theorem donors_lost_letter :
    Script.letter.world.NeverThrows ∧ 1 ≤ (SchedulerConfig.single 1).maxBatchSize ∧
      ∃ past s, (Server.continuous Script.letter.world (.single 1) 4 fun _ => none).Run past s ∧
        s.thread.pc = .takeWork ∧ s.thread.active = [] ∧ s.thread.blocks.refcount 0 = 1 ∧
        ¬ s.thread.Balanced Script.letter.world
          ((SchedulerConfig.single 1).construct Script.letter.caps) := by
  obtain ⟨past, s, run, boundary, idle, slotFree, slotNamed, leaked⟩ : ∃ past s,
      (Server.continuous Script.letter.world (.single 1) 4 fun _ => none).Run past s ∧
      (s.thread.pc = .takeWork ∧ s.thread.active = [] ∧
        s.thread.prefixCache.freeDonorSlots.count 1 = 0 ∧
        s.thread.prefixCache.donors.countP (·.seq = 1) = 0 ∧ s.thread.blocks.refcount 0 = 1) :=
    Server.exists_run ([.push { id := 0, spec := { prompt := [1, 2], maxTokens := 2 } },
      .push { id := 1, spec := { prompt := [1, 2], maxTokens := 2 } }] ++
      List.replicate 64 .run) rfl rfl (by decide +kernel)
  refine ⟨Script.letter_neverThrows, by decide, past, s, run, boundary, idle, leaked, ?_⟩
  intro balanced
  have slot := balanced.slots 1 (by decide +kernel)
  omega

/-! ## No donors -/

theorem SchedulerConfig.construct_prefixDonors {config : SchedulerConfig} (caps : EngineCaps)
    (none : config.prefixDonors = 0) :
    (config.settle caps).prefixDonors = 0 ∧ (config.construct caps).prefixDonors = 0 := by
  have settled : (config.settle caps).prefixDonors = 0 := by
    have kept : ((config.clampBatch caps).sizePool caps).prefixDonors = 0 := by
      simp only [sizePool, clampBatch]
      split <;> exact none
    simp [settle, clampDonors, kept]
  refine ⟨settled, ?_⟩
  simp only [construct]
  split <;> exact settled

/-- Without donors nothing in the cache is retained, so no job can write over a donor. -/
theorem Continuous.Books.spares {σ : Type} {w : World σ} {config : SchedulerConfig} {s : Continuous σ}
    {lostBlocks lostSlots : List Nat} (books : Books config s lostBlocks lostSlots)
    (none : config.prefixDonors = 0) : s.SparesDonors w config ∧ s.prefixCache.pinned = [] := by
  have live : ∀ p ∈ s.prefixCache.pairs, p.2.retained = false := by
    intro p member
    apply Bool.eq_false_iff.mpr
    intro kept
    have donor := books.ledger.donor_of_retained member kept
    simp [donorSlots, none] at donor
  refine ⟨fun _ _ p member _ => live p member, ?_⟩
  apply List.flatMap_eq_nil_iff.mpr
  intro p member
  simp [PrefixCache.pinnedBy, live p member]

/-- Until the thread dies, every reference is held by a page table. -/
theorem Server.accounts_run {σ : Type} {w : World σ} {config : SchedulerConfig} {capacity : Nat}
    {world : σ} {past : List Event} {s : Server (Continuous σ)} (none : config.prefixDonors = 0)
    (run : (continuous w config capacity world).Run past s)
    (alive : ∀ message, s.thread.pc ≠ .crashed message) :
    s.thread.blocks.Accounts (tables s.thread.active) := by
  obtain ⟨settled, constructed⟩ := config.construct_prefixDonors w.caps none
  have kept : ∃ lostBlocks lostSlots, s.thread.Books (config.construct w.caps) lostBlocks lostSlots ∧
      ((∀ message, s.thread.pc ≠ .crashed message) → lostBlocks = []) := by
    refine continuous_invariant ?_ ?_ ?_ ?_ run.guarded_true
    · refine ⟨[], [], books_start ?_, fun _ => rfl⟩
      rw [donorSlots, donorSlots, settled, constructed]
      rfl
    · exact fun _ _ _ _ books => books
    · exact fun _ _ books => books
    · intro past s thread queue _ settled books move _
      obtain ⟨lostBlocks, lostSlots, books, unlost⟩ := books
      obtain ⟨lostBlocks', lostSlots', after, keeps⟩ := books.move settled.layout move
      refine ⟨lostBlocks', lostSlots', after.frame_all rfl rfl rfl, ?_⟩
      intro alive
      exact (keeps (books.spares constructed).1 (.inr alive)).1.trans (unlost move.not_crashed)
  obtain ⟨lostBlocks, lostSlots, books, unlost⟩ := kept
  have accounts := books.ledger.accounts
  rwa [unlost alive, (books.spares (w := w) constructed).2, List.append_nil, List.append_nil] at accounts

/-- With no donor slots, in every state the thread has not died in, a block has one reference for
    each time it stands in the page table of an active job; the free blocks are those that
    stand in none; and with nothing active the pool is unused. -/
theorem blocks_accounted {σ : Type} (w : World σ) (config : SchedulerConfig) (capacity : Nat)
    (world : σ) (none : config.prefixDonors = 0) (past : List Event) (s : Server (Continuous σ))
    (run : (Server.continuous w config capacity world).Run past s)
    (alive : ∀ message, s.thread.pc ≠ .crashed message) :
    (∀ b, s.thread.blocks.refcount b = (tables s.thread.active).count b) ∧
      (∀ b, b ∈ s.thread.blocks.freeList ↔ b < s.thread.blocks.total ∧ b ∉ tables s.thread.active) ∧
      s.thread.blocks.freeList.Nodup ∧
      (s.thread.active = [] → s.thread.blocks.usedBlocks = 0) := by
  have accounts := Server.accounts_run none run alive
  refine ⟨accounts.counts, ?_, accounts.freeNodup, ?_⟩
  · intro b
    rw [accounts.memFree, accounts.counts, List.count_eq_zero]
  · intro idle
    rw [idle] at accounts
    have free := accounts.freeBlocks_of_nil
    rw [BlockAllocator.usedBlocks]
    omega

/-- Two slots over a pool of eight blocks of two tokens, with prefix caching and no donors. -/
def SchedulerConfig.sharing : SchedulerConfig :=
  { maxBatchSize := 2, blockSize := 2, kvBlocks := 8, prefixDonors := 0 }

/-- Two requests with one prompt, the second one admitted while the first is running: the first
    block of the first one stands in both tables. -/
theorem blocks_accounted_letter :
    ∃ past s, (Server.continuous Script.letter.world .sharing 4 fun _ => none).Run past s ∧
      s.thread.pc = .takeWork ∧ (tables s.thread.active).count 0 = 2 ∧
      s.thread.blocks.refcount 0 = 2 := by
  obtain ⟨past, s, run, boundary, shared⟩ : ∃ past s,
      (Server.continuous Script.letter.world .sharing 4 fun _ => none).Run past s ∧
        (s.thread.pc = .takeWork ∧ (tables s.thread.active).count 0 = 2) :=
    Server.exists_run ([.push { id := 0, spec := { prompt := [1, 2], maxTokens := 4 } }] ++
      List.replicate 12 .run ++ [.push { id := 1, spec := { prompt := [1, 2], maxTokens := 4 } }] ++
      List.replicate 17 .run) rfl rfl (by decide +kernel)
  have accounted := blocks_accounted _ _ _ _ rfl past s run (by simp [boundary])
  exact ⟨past, s, run, boundary, shared, (accounted.1 0).trans shared⟩

end MicroVllm
