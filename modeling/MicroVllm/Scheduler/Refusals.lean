import MicroVllm.Scheduler.Attempts
import MicroVllm.Scheduler.Seniority

/-! # Donor slots the engine refuses

`retain_prefix` takes a donor slot off the stack before it asks the engine to begin and to fill it.
If the engine throws, the slot is meant to go back by way of `evict_sequence`, which hands back the
slots of the retained entries it drops.  No entry names a slot that was only just taken.
-/

namespace MicroVllm

namespace PrefixCache

variable {c c' : PrefixCache}

/-- The donor slots that are free or that an entry sits in. -/
def stock (c : PrefixCache) : List Nat := c.freeDonorSlots ++ c.donorsNamed

theorem SameEntries.stock_eq (same : c.SameEntries c') : c'.stock = c.stock := by
  rw [stock, stock, donorsNamed, donorsNamed, same.pairs, same.freeDonorSlots]

theorem takeDonorSlot_stock {slot : Nat} (taken : c.takeDonorSlot = some (slot, c')) :
    c.stock = slot :: c'.stock := by
  obtain ⟨stack, pairs, _⟩ := takeDonorSlot_eq_some taken
  rw [stock, stock, donorsNamed, donorsNamed, pairs, stack]
  rfl

theorem evictLruRetained_stock {donor : Entry} (evicted : c.evictLruRetained = some (donor, c')) :
    c'.stock.Perm c.stock := by
  obtain ⟨hash, _, kept, _, split, slots, _⟩ := evictLruRetained_eq_some evicted
  have named := split.flatMap_right slotBy
  rw [List.flatMap_cons, slotBy, if_pos kept] at named
  rw [stock, stock, slots, donorsNamed, donorsNamed]
  exact List.perm_middle.symm.trans (named.symm.append_left c.freeDonorSlots)

theorem evictSequence_stock (seq : Nat) : (c.evictSequence seq).stock.Perm c.stock := by
  have handed : ∀ entries : List (UInt64 × Record),
      ((entries.filter (fun p => p.2.entry.seq = seq ∧ p.2.entry.retained)).map (fun _ => seq) ++
        ((entries.map fun p => (p.1, p.2.entry)).filter (·.2.seq ≠ seq)).flatMap slotBy).Perm
      ((entries.map fun p => (p.1, p.2.entry)).flatMap slotBy) := by
    intro entries
    induction entries with
    | nil => exact .refl _
    | cons p entries ih =>
      rw [List.map_cons, List.flatMap_cons]
      by_cases named : p.2.entry.seq = seq
      · rw [List.filter_cons_of_neg (l := List.map _ _) (by simpa using named)]
        cases kept : p.2.entry.retained with
        | true =>
          rw [List.filter_cons_of_pos (by simp [named, kept]), slotBy, if_pos kept, named]
          exact ih.cons seq
        | false =>
          rw [List.filter_cons_of_neg (by simp [kept]), slotBy, if_neg (by simp [kept])]
          exact ih
      · rw [List.filter_cons_of_pos (l := List.map _ _) (by simpa using named),
          List.filter_cons_of_neg (by simp [named]), List.flatMap_cons]
        exact (List.perm_append_comm_assoc _ _ _).trans (ih.append_left _)
  rw [stock, stock, donorsNamed, donorsNamed, evictSequence_pairs]
  show (_ ++ c.freeDonorSlots ++ _).Perm _
  refine List.Perm.trans ?_ ((handed c.entries).append_left c.freeDonorSlots)
  rw [← List.append_assoc]
  exact List.perm_append_comm.append_right _

theorem insert_stock (hash : UInt64) (entry : Entry) :
    (slotBy (hash, entry) ++ c.stock).Perm ((c.insert hash entry).stock ++ c.underKey hash slotBy) := by
  rw [stock, stock, insert_freeDonorSlots, List.append_assoc]
  refine (List.perm_append_comm_assoc _ _ _).trans (List.Perm.append_left _ ?_)
  exact insert_flatMap hash entry slotBy

end PrefixCache

namespace Scheduler

variable {σ : Type} {w : World σ} {config : SchedulerConfig} {m m' m₁ : Scheduler σ} {job : Job} {slot : Nat}

theorem reclaim_stock (evicted : m.reclaimDonorBlocks w = some m') :
    m'.prefixCache.stock.Perm m.prefixCache.stock := by
  simp only [reclaimDonorBlocks] at evicted
  split at evicted
  · cases evicted
  · rename_i found
    cases evicted
    exact PrefixCache.evictLruRetained_stock found

/-- The slot comes off the stack, if need be by way of the oldest donor. -/
theorem takeSlot_stock (taken : m.takeSlot w = some (slot, m₁)) :
    m.prefixCache.stock.Perm (slot :: m₁.prefixCache.stock) := by
  simp only [takeSlot] at taken
  split at taken
  · rename_i pop
    cases taken
    exact .of_eq (PrefixCache.takeDonorSlot_stock pop)
  · split at taken
    · cases taken
    · rename_i evicted
      split at taken
      · cases taken
      · rename_i pop
        cases taken
        exact (reclaim_stock evicted).symm.trans (.of_eq (PrefixCache.takeDonorSlot_stock pop))

/-- Whatever comes of it, keeping a prefix makes no donor slot up. -/
theorem Retains.stock (retains : Retains w config job m m') :
    m'.prefixCache.stock.Subperm m.prefixCache.stock := by
  have refused : ∀ {slot m₁}, m.takeSlot w = some (slot, m₁) →
      (m₁.prefixCache.evictSequence slot).stock.Subperm m.prefixCache.stock := by
    intro slot m₁ taken
    refine (PrefixCache.evictSequence_stock slot).subperm.trans ?_
    exact (List.sublist_cons_self slot _).subperm.trans (takeSlot_stock taken).symm.subperm
  cases retains with
  | nothing => exact .refl _
  | notBegun taken => exact refused taken
  | notCopied taken => exact refused taken
  | kept _ _ _ taken =>
    refine List.Subperm.trans ?_ (takeSlot_stock taken).symm.subperm
    exact (List.sublist_append_left _ _).subperm.trans (PrefixCache.insert_stock _ _).symm.subperm

/-- The state a retiring job ends in. -/
def ending (w : World σ) (job : Job) (m : Scheduler σ) : Job :=
  { job with state := (job.state.finish w m.port).1 }

/-- The members at the moment the prefix of a retiring job is to be kept. -/
def retiring (w : World σ) (job : Job) (m : Scheduler σ) : Scheduler σ :=
  { m with
    port := (job.state.finish w m.port).2
    prefixCache := m.prefixCache.evictSequence (ending w job m).state.seq }

theorem retire_prefixCache (w : World σ) (config : SchedulerConfig) (job : Job) (m : Scheduler σ) :
    (m.retire w config job).prefixCache =
      (retainPrefix w config (ending w job m) (m.retiring w job)).prefixCache := rfl

theorem retire_stock (w : World σ) (config : SchedulerConfig) (job : Job) (m : Scheduler σ) :
    (m.retire w config job).prefixCache.stock.Subperm m.prefixCache.stock := by
  rw [retire_prefixCache]
  exact (retainPrefix_retains w config _ _).stock.trans (PrefixCache.evictSequence_stock _).subperm

/-- `retain_prefix` has taken a donor slot for the prefix of a job, and turns to the engine. -/
structure Takes (w : World σ) (config : SchedulerConfig) (job : Job) (slot : Nat) (m m₁ : Scheduler σ) :
    Prop where
  caching : config.prefixCaching = true
  capacity : m.prefixCache.donorCapacity ≠ 0
  whole : wholeTokens config job.state.prompt ≠ 0
  backed : wholeTokens config job.state.prompt / config.blockSize ≤ job.blocks.nBlocks
  taken : m.takeSlot w = some (slot, m₁)

/-- The engine begins the slot and copies the prefix of the job into it: neither call throws. -/
def copies (w : World σ) (config : SchedulerConfig) (job : Job) (slot : Nat) (m₁ : Scheduler σ) : Bool :=
  match m₁.port.beginSequence w slot {} with
  | (.error _, _) => false
  | (.ok (), port) =>
    match (port.copySequence w job.state.seq slot (toPos (wholeTokens config job.state.prompt))).1 with
    | .error _ => false
    | .ok () => true

/-- The entries and the blocks are what they were, or what they were without the least recently
    used donor. -/
def AsBefore (m m' : Scheduler σ) : Prop :=
  (m'.prefixCache.pairs = m.prefixCache.pairs ∧ m'.blocks = m.blocks) ∨
    ∃ donor cache, m.prefixCache.evictLruRetained = some (donor, cache) ∧
      m'.prefixCache.pairs = cache.pairs ∧ m'.blocks = m.blocks.free donor.blocks

/-- What an attempt that fails is to leave: the slot is on the stack again, nothing names it, and
    nothing else has changed. -/
structure GivenBack (slot : Nat) (m m' : Scheduler σ) : Prop where
  available : slot ∈ m'.prefixCache.freeDonorSlots
  unnamed : ∀ p ∈ m'.prefixCache.pairs, p.2.seq ≠ slot
  rest : m.AsBefore m'

theorem takeSlot_asBefore (taken : m.takeSlot w = some (slot, m₁)) : m.AsBefore m₁ := by
  simp only [takeSlot, reclaimDonorBlocks] at taken
  split at taken
  · rename_i pop
    cases taken
    exact .inl ⟨(PrefixCache.takeDonorSlot_eq_some pop).2.1, rfl⟩
  · cases evicted : m.prefixCache.evictLruRetained with
    | none => simp [evicted] at taken
    | some found =>
      obtain ⟨donor, cache⟩ := found
      simp only [evicted] at taken
      split at taken
      · cases taken
      · rename_i pop
        cases taken
        exact .inr ⟨donor, cache, evicted, (PrefixCache.takeDonorSlot_eq_some pop).2.1, rfl⟩

theorem Takes.retainPrefix_eq (takes : Takes w config job slot m m₁) :
    retainPrefix w config job m = retainInto w config job slot m₁ := by
  have backed := takes.backed
  simp only [retainPrefix, takes.caching, takes.capacity, takes.whole, takes.taken, or_self,
    Bool.true_eq_false, if_false]
  rw [if_neg (by omega)]

/-- A copy leaves an entry in the slot. -/
theorem retainInto_copied (copied : copies w config job slot m₁ = true) :
    slot ∈ (retainInto w config job slot m₁).prefixCache.stock := by
  simp only [copies] at copied
  cases begins : m₁.port.beginSequence w slot {} with
  | mk begun port =>
    simp only [begins] at copied
    cases begun with
    | error message => cases copied
    | ok =>
      cases calls : port.copySequence w job.state.seq slot (toPos (wholeTokens config job.state.prompt)) with
      | mk outcome port =>
        simp only [calls] at copied
        cases outcome with
        | error message => cases copied
        | ok =>
          simp only [retainInto, begins, calls]
          apply List.mem_append_right
          simp [PrefixCache.retain, PrefixCache.donorsNamed, PrefixCache.slotBy]

/-- A refusal leaves everything but the entries that name the slot. -/
theorem retainInto_refused (refused : copies w config job slot m₁ = false) :
    ∃ port, retainInto w config job slot m₁ =
      { m₁ with port := port, prefixCache := m₁.prefixCache.evictSequence slot } := by
  simp only [copies] at refused
  cases begins : m₁.port.beginSequence w slot {} with
  | mk begun port =>
    simp only [begins] at refused
    cases begun with
    | error message =>
      simp only [retainInto, begins]
      exact ⟨_, rfl⟩
    | ok =>
      cases calls : port.copySequence w job.state.seq slot (toPos (wholeTokens config job.state.prompt)) with
      | mk outcome port =>
        simp only [calls] at refused
        cases outcome with
        | error message =>
          simp only [retainInto, begins, calls]
          exact ⟨_, rfl⟩
        | ok => cases refused

/-- If no entry names the slot that was taken, a refusal loses it and nothing else. -/
theorem Takes.refused (takes : Takes w config job slot m m₁) (nodup : m.prefixCache.stock.Nodup)
    (live : ∀ p ∈ m.prefixCache.pairs, p.2.retained = false → p.2.seq ≠ slot)
    (refused : copies w config job slot m₁ = false) :
    (∀ p ∈ (retainPrefix w config job m).prefixCache.pairs, p.2.seq ≠ slot) ∧
      m.AsBefore (retainPrefix w config job m) ∧
      m.prefixCache.stock.Perm (slot :: (retainPrefix w config job m).prefixCache.stock) := by
  have stock := takeSlot_stock takes.taken
  obtain ⟨fresh, _⟩ := List.nodup_cons.mp (stock.nodup_iff.mp nodup)
  -- the slot was free, so no donor sits in it
  have unnamed : ∀ p ∈ m₁.prefixCache.pairs, p.2.seq ≠ slot := by
    intro p member same
    cases kept : p.2.retained with
    | false => exact live p (takeSlot_pairs takes.taken member) kept same
    | true =>
      apply fresh
      apply List.mem_append_right
      exact List.mem_flatMap.mpr ⟨p, member, by simp [PrefixCache.slotBy, kept, same]⟩
  have pairs : (m₁.prefixCache.evictSequence slot).pairs = m₁.prefixCache.pairs := by
    rw [PrefixCache.evictSequence_pairs, List.filter_eq_self]
    intro p member
    simpa using unnamed p member
  obtain ⟨port, left⟩ := retainInto_refused refused
  rw [takes.retainPrefix_eq, left]
  refine ⟨by rw [pairs]; exact unnamed, ?_, stock.trans ?_⟩
  · have before := takeSlot_asBefore takes.taken
    simp only [AsBefore] at before ⊢
    rw [pairs]
    exact before
  · exact ((PrefixCache.evictSequence_stock slot).symm).cons slot

end Scheduler

/-- The donor slots lie above the batch slots, unless the only batch slot is one that was added
    after they were placed. -/
theorem SchedulerConfig.construct_batch_le (caps : EngineCaps) (config : SchedulerConfig) :
    (config.construct caps).maxBatchSize ≤ (config.settle caps).maxBatchSize ∨
      (config.construct caps).maxBatchSize = 1 := by
  simp only [construct]
  split
  · exact .inr rfl
  · exact .inl (Nat.le_refl _)

namespace Continuous

variable {σ : Type} {w : World σ} {config : SchedulerConfig} {s s' : Continuous σ} {q q' : RequestQueue}

/-- No move makes a donor slot up. -/
theorem Move.stock (move : Move w config s q s' q') :
    s'.prefixCache.stock.Subperm s.prefixCache.stock := by
  cases move with
  | giveUp pc short evicted => exact (Scheduler.reclaim_stock evicted).subperm
  | reclaimDonor pc here full evicted => exact (Scheduler.reclaim_stock evicted).subperm
  | place pc fits same | adopt pc fits same | adoptCrash pc fits same =>
    exact (List.Perm.of_eq same.stock_eq).subperm
  | @acceptPublish sampling step steps grewShort before job after state port table blocks job' =>
    have written := PrefixCache.insert_stock (c := s.prefixCache) (offerHash job' blocks.blockSize)
      (job'.offer blocks.blockSize)
    exact (List.sublist_append_left _ _).subperm.trans written.symm.subperm
  | sweepRetire => exact Scheduler.retire_stock ..
  | preemptEvict => exact (PrefixCache.evictSequence_stock _).subperm
  | _ => exact .refl _

/-- The live entries belong to active jobs. -/
def Attached (s : Continuous σ) : Prop :=
  ∀ p ∈ s.prefixCache.pairs, p.2.retained = false → p.2.seq ∈ seqs s.active

theorem Attached.mono (attached : s.Attached) (entries : s'.prefixCache.pairs ⊆ s.prefixCache.pairs)
    (stay : seqs s.active ⊆ seqs s'.active) : s'.Attached :=
  fun p member live => stay (attached p (entries member) live)

/-- A job leaves and takes its entries with it. -/
theorem Attached.leave (attached : s.Attached) {before after : List Job} {job : Job}
    (here : s.active = before ++ job :: after) (active : s'.active = before ++ after)
    (gone : ∀ p ∈ s'.prefixCache.pairs, p.2.retained = false →
      p ∈ s.prefixCache.pairs ∧ p.2.seq ≠ job.state.seq) : s'.Attached := by
  intro p member live
  obtain ⟨old, other⟩ := gone p member live
  have owner := attached p old live
  rw [here, seqs_append, seqs_cons, List.mem_append, List.mem_cons] at owner
  rw [active, seqs_append, List.mem_append]
  exact owner.imp_right fun later => later.resolve_left other

theorem Attached.move (attached : s.Attached) (move : Move w config s q s' q') : s'.Attached := by
  have stays : seqs s'.active = seqs s.active → s'.prefixCache.pairs ⊆ s.prefixCache.pairs →
      s'.Attached := fun same entries => attached.mono entries (by rw [same]; exact List.Subset.refl _)
  have around : ∀ {before after : List Job} {job job' : Job}, s.active = before ++ job :: after →
      job.Same job' → seqs (before ++ job' :: after) = seqs s.active := by
    intro before after job job' here same
    rw [here]
    exact seqs_of_same (Lists.forall₂_around .refl same)
  have joins : ∀ {job}, s'.active = s.active ++ [job] → s'.prefixCache.pairs = s.prefixCache.pairs →
      s'.Attached := by
    intro job active entries
    apply attached.mono (by rw [entries]; exact List.Subset.refl _)
    rw [active, seqs_append]
    exact List.subset_append_left _ _
  cases move with
  | giveUp pc short evicted | reclaimDonor pc here full evicted =>
    exact stays rfl (Scheduler.reclaim_pairs evicted)
  | placeFailed => exact joins rfl rfl
  | place pc fits same | adopt pc fits same => exact joins rfl same.pairs
  | adoptCrash pc fits same => exact stays rfl (by rw [same.pairs]; exact List.Subset.refl _)
  | buildNothing | decode =>
    exact stays (seqs_of_same (same_of_sameTable (same_build _ _ _))) (List.Subset.refl _)
  | decodeFail =>
    exact stays (seqs_of_same (same_of_sameTable (same_decodeFail _ _ _ s))) (List.Subset.refl _)
  | acceptFail => exact stays (seqs_of_same (same_of_sameTable (same_failAll _ _))) (List.Subset.refl _)
  | acceptFinish pc here accepted =>
    exact stays (around here (same_finish (same_accept accepted) _)) (List.Subset.refl _)
  | acceptStarve pc here accepted | acceptGrow pc here accepted =>
    exact stays (around here (same_accept accepted)) (List.Subset.refl _)
  | resolveFail pc here large failed =>
    subst failed
    exact stays (around here ⟨rfl, ((SequenceState.fail_same _ _ _).trans
      (SequenceState.finish_same _ _)).toSameOrigin⟩) (List.Subset.refl _)
  | reclaimGrow pc here | preemptGrow pc here =>
    exact stays (around here (.withBlocks _ _)) (List.Subset.refl _)
  | @acceptPublish sampling step steps grewShort before job after state port table blocks job' pc here
      accepted grown published =>
    have same : job.Same job' := by
      rw [published]
      exact same_accept accepted
    intro p member live
    rw [PrefixCache.insert_pairs, List.mem_cons] at member
    show p.2.seq ∈ seqs (before ++ job' :: after)
    -- the new entry names the job that wrote it
    rcases member with rfl | old
    · simp [Job.offer]
    · rw [around here same]
      exact attached p (List.mem_of_mem_filter old) live
  | @sweepRetire starved before job after pc here =>
    refine attached.leave here rfl ?_
    intro p member live
    -- the entry retirement may leave behind is a donor's
    rcases Scheduler.retire_pairs job s.toScheduler member with old | ⟨slot, rfl, _⟩
    · exact old
    · cases live
  | preemptEvict pc starving named full here =>
    refine attached.leave here rfl ?_
    intro p member _
    rw [PrefixCache.evictSequence_pairs, List.mem_filter] at member
    simpa using member
  | _ => exact stays rfl (List.Subset.refl _)

/-- The job that the next turn of a sweep retires. -/
def Retires (job : Job) (s : Continuous σ) : Prop :=
  ∃ i starved, s.pc = .sweep i starved ∧ s.active[i]? = some job ∧ job.state.finished = true

theorem Retires.active {job : Job} (retires : s.Retires job) : job ∈ s.active := by
  obtain ⟨i, starved, _, here, _⟩ := retires
  exact List.mem_of_getElem? here

end Continuous

namespace Server

variable {σ : Type} {w : World σ} {config : SchedulerConfig} {capacity : Nat} {world : σ}
variable {past : List Event} {s : Server (Continuous σ)}

/-- The donor slots that are left are some of those there were. -/
theorem stock_run (run : (continuous w config capacity world).Run past s) :
    s.thread.prefixCache.stock.Subperm (donorSlots (config.settle w.caps)) := by
  refine continuous_thread_invariant ?_ ?_ run.guarded_true
  · apply List.Perm.subperm
    simp [Continuous.start, Scheduler.make, PrefixCache.stock, PrefixCache.donorsNamed,
      PrefixCache.configureDonors, PrefixCache.pairs, donorSlots]
  · exact fun _ _ _ _ _ _ stock move _ => move.stock.trans stock

theorem attached_run (run : (continuous w config capacity world).Run past s) : s.thread.Attached := by
  refine continuous_thread_invariant ?_ ?_ run.guarded_true
  · intro p member
    simp [Continuous.start, Scheduler.make, PrefixCache.configureDonors, PrefixCache.pairs] at member
  · exact fun _ _ thread _ _ _ attached move _ => (attached.move move : thread.Attached)

/-- The live entries that are left when a job retires name other slots than the donors'. -/
theorem retiring_live (run : (continuous w config capacity world).Run past s) {job : Job} {slot : Nat}
    (active : job ∈ s.thread.active) (donor : slot ∈ donorSlots (config.settle w.caps)) :
    ∀ p ∈ (s.thread.retiring w job).prefixCache.pairs, p.2.retained = false → p.2.seq ≠ slot := by
  intro p member live same
  have layout := (settled_run run).layout
  rw [Scheduler.retiring, PrefixCache.evictSequence_pairs, List.mem_filter] at member
  obtain ⟨old, other⟩ := member
  have elsewhere : p.2.seq ≠ job.state.seq := by
    simpa [Scheduler.ending, (SequenceState.finish_same (w := w) job.state s.thread.port).seq] using other
  obtain ⟨owner, running, named⟩ := mem_seqs.mp (attached_run run p old live)
  have batch := layout.lt_of_active running
  have own := layout.lt_of_active active
  have above := (mem_donorSlots donor).1
  -- with a batch of one the only active job is the one that retires
  rcases config.construct_batch_le w.caps with placed | one <;> omega

/-- A job retires and `retain_prefix` has taken a donor slot for its prefix.  If the engine throws
    while it begins the slot or copies into it, the slot is lost, and nothing else is.  So what is
    to hold of a failed attempt holds exactly of those that do not fail. -/
theorem retention_gives_back (run : (continuous w config capacity world).Run past s) {slot : Nat}
    {job : Job} {m₁ : Scheduler σ} (retires : s.thread.Retires job)
    (takes : Scheduler.Takes w (config.construct w.caps) (Scheduler.ending w job s.thread.toScheduler) slot
      (s.thread.retiring w job) m₁) :
    let m := s.thread.retiring w job
    let ending := Scheduler.ending w job s.thread.toScheduler
    let m' := Scheduler.retainPrefix w (config.construct w.caps) ending m
    let copied := Scheduler.copies w (config.construct w.caps) ending slot m₁
    ((copied = false → m.GivenBack slot m') ↔ copied = true) ∧
      (slot ∈ m'.prefixCache.stock ↔ copied = true) ∧
      (copied = false → (∀ p ∈ m'.prefixCache.pairs, p.2.seq ≠ slot) ∧ m.AsBefore m' ∧
        m.prefixCache.stock.Perm (slot :: m'.prefixCache.stock)) := by
  intro m ending m' copied
  have stock : m.prefixCache.stock.Subperm (donorSlots (config.settle w.caps)) :=
    (PrefixCache.evictSequence_stock _).subperm.trans (stock_run run)
  have nodup : m.prefixCache.stock.Nodup := by
    obtain ⟨slots, same, sub⟩ := stock
    exact same.nodup_iff.mp ((donorSlots_nodup _).sublist sub)
  have taken := Scheduler.takeSlot_stock takes.taken
  have donor := stock.subset (taken.mem_iff.mpr List.mem_cons_self)
  have refused := takes.refused nodup (retiring_live run retires.active donor)
  have lost : copied = false → slot ∉ m'.prefixCache.stock := by
    intro threw
    obtain ⟨_, _, left⟩ := refused threw
    exact (List.nodup_cons.mp (left.nodup_iff.mp nodup)).1
  refine ⟨⟨fun back => ?_, fun whole threw => ?_⟩, ⟨fun kept => ?_, fun whole => ?_⟩, refused⟩
  · cases threw : copied with
    | true => rfl
    | false => exact absurd (List.mem_append_left _ (back threw).available) (lost threw)
  · rw [whole] at threw
    cases threw
  · cases threw : copied with
    | true => rfl
    | false => exact absurd kept (lost threw)
  · show slot ∈ (Scheduler.retainPrefix w _ _ _).prefixCache.stock
    rw [takes.retainPrefix_eq]
    exact Scheduler.retainInto_copied whole

end Server

namespace Continuous

variable {σ : Type} {w : World σ} {config : SchedulerConfig} {s : Continuous σ}

/-- Whether the next turn retires a job, takes a donor slot for it, and the engine copies or not. -/
def attempts (w : World σ) (config : SchedulerConfig) (copied : Bool) (s : Continuous σ) : Bool :=
  match s.pc with
  | .sweep i _ => s.active[i]?.any fun job =>
    let ending := Scheduler.ending w job s.toScheduler
    let whole := Scheduler.wholeTokens config ending.state.prompt
    job.state.finished && config.prefixCaching &&
      (s.retiring w job).prefixCache.donorCapacity != 0 && whole != 0 &&
      whole / config.blockSize ≤ ending.blocks.nBlocks &&
      ((s.retiring w job).takeSlot w).any fun r => Scheduler.copies w config ending r.1 r.2 == copied
  | _ => false

theorem exists_takes {copied : Bool} (attempts : s.attempts w config copied = true) :
    ∃ job slot m₁, s.Retires job ∧
      Scheduler.Takes w config (Scheduler.ending w job s.toScheduler) slot (s.retiring w job) m₁ ∧
      Scheduler.copies w config (Scheduler.ending w job s.toScheduler) slot m₁ = copied := by
  simp only [Continuous.attempts] at attempts
  split at attempts
  · rename_i i starved pc
    obtain ⟨job, here, attempts⟩ := (Option.any_eq_true _ _).mp attempts
    simp only [Bool.and_eq_true, bne_iff_ne, ne_eq, decide_eq_true_eq] at attempts
    obtain ⟨⟨⟨⟨⟨finished, caching⟩, capacity⟩, whole⟩, backed⟩, engine⟩ := attempts
    obtain ⟨⟨slot, m₁⟩, taken, copies⟩ := (Option.any_eq_true _ _).mp engine
    exact ⟨job, slot, m₁, ⟨i, starved, pc, here, finished⟩, ⟨caching, capacity, whole, backed, taken⟩,
      by simpa using copies⟩
  · cases attempts

end Continuous

/-- The letter model with an engine that begins sequences and does not copy them. -/
def Script.copyless : World (Kv Token) :=
  { Script.letter.world with copySequence := fun _ _ _ kv => (.error "no room to copy", kv) }

namespace Server

/-- A request of two tokens retires, and its prefix is copied into the only donor slot. -/
theorem retention_gives_back_letter :
    ∃ past s job slot m₁, (continuous Script.letter.world (.single 1) 4 fun _ => none).Run past s ∧
      s.thread.Retires job ∧
      Scheduler.Takes Script.letter.world (SchedulerConfig.construct Script.letter.world.caps (.single 1))
        (Scheduler.ending Script.letter.world job s.thread.toScheduler) slot
        (s.thread.retiring Script.letter.world job) m₁ ∧
      slot ∈ (Scheduler.retainPrefix Script.letter.world
        (SchedulerConfig.construct Script.letter.world.caps (.single 1))
        (Scheduler.ending Script.letter.world job s.thread.toScheduler)
        (s.thread.retiring Script.letter.world job)).prefixCache.stock := by
  obtain ⟨past, s, run, reached⟩ : ∃ past s,
      (continuous Script.letter.world (.single 1) 4 fun _ => none).Run past s ∧
      s.thread.attempts Script.letter.world
        (SchedulerConfig.construct Script.letter.world.caps (.single 1)) true = true :=
    exists_run ([.push { id := 0, spec := { prompt := [1, 2], maxTokens := 2 } }] ++ List.replicate 28 .run)
      rfl rfl (by decide +kernel)
  obtain ⟨job, slot, m₁, retires, takes, copied⟩ := Continuous.exists_takes reached
  exact ⟨past, s, job, slot, m₁, run, retires, takes,
    (retention_gives_back run retires takes).2.1.mpr copied⟩

/-- The same with an engine that does not copy: the only donor slot is gone, and nothing is
    retained. -/
theorem retention_loses_slot_letter :
    ∃ past s job slot m₁, (continuous Script.copyless (.single 1) 4 fun _ => none).Run past s ∧
      s.thread.Retires job ∧
      Scheduler.Takes Script.copyless (SchedulerConfig.construct Script.copyless.caps (.single 1))
        (Scheduler.ending Script.copyless job s.thread.toScheduler) slot
        (s.thread.retiring Script.copyless job) m₁ ∧
      Scheduler.copies Script.copyless (SchedulerConfig.construct Script.copyless.caps (.single 1))
        (Scheduler.ending Script.copyless job s.thread.toScheduler) slot m₁ = false ∧
      s.thread.prefixCache.donorCapacity = 1 ∧
      (s.thread.retire Script.copyless (SchedulerConfig.construct Script.copyless.caps (.single 1))
        job).prefixCache.stock = [] ∧
      ¬ (s.thread.retiring Script.copyless job).GivenBack slot (Scheduler.retainPrefix Script.copyless
        (SchedulerConfig.construct Script.copyless.caps (.single 1))
        (Scheduler.ending Script.copyless job s.thread.toScheduler)
        (s.thread.retiring Script.copyless job)) := by
  obtain ⟨past, s, run, reached, capacity, empty⟩ : ∃ past s,
      (continuous Script.copyless (.single 1) 4 fun _ => none).Run past s ∧
      s.thread.attempts Script.copyless
        (SchedulerConfig.construct Script.copyless.caps (.single 1)) false = true ∧
      s.thread.prefixCache.donorCapacity = 1 ∧ ∀ job ∈ s.thread.active,
      (s.thread.retire Script.copyless (SchedulerConfig.construct Script.copyless.caps (.single 1))
        job).prefixCache.stock = [] :=
    exists_run ([.push { id := 0, spec := { prompt := [1, 2], maxTokens := 2 } }] ++ List.replicate 28 .run)
      rfl rfl (by decide +kernel)
  obtain ⟨job, slot, m₁, retires, takes, threw⟩ := Continuous.exists_takes reached
  have nothing := empty job retires.active
  refine ⟨past, s, job, slot, m₁, run, retires, takes, threw, capacity, nothing, ?_⟩
  intro back
  rw [Scheduler.retire_prefixCache, PrefixCache.stock] at nothing
  have available := back.available
  rw [(List.append_eq_nil_iff.mp nothing).1] at available
  cases available

end Server

end MicroVllm
