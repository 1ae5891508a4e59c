import MicroVllm.Scheduler.Delivery

/-! # The ledger of blocks and donor slots

Who holds a reference to which block, and where each donor slot is, for the members of
the scheduler alone.  A `Ledger` names what the page tables hold and what has been lost:
blocks and slots that a retained entry held when another entry was written over it.
Each member function says what it does to those lists.
-/

namespace MicroVllm

/-- Donor slots live above the batch slots. -/
def donorSlots (config : SchedulerConfig) : List Nat :=
  (List.range config.prefixDonors).map (config.maxBatchSize + ·)

theorem mem_donorSlots {config : SchedulerConfig} {slot : Nat} :
    slot ∈ donorSlots config →
      config.maxBatchSize ≤ slot ∧ slot < config.maxBatchSize + config.prefixDonors := by
  intro member
  obtain ⟨i, inside, rfl⟩ := List.mem_map.mp member
  have bound := List.mem_range.mp inside
  omega

theorem donorSlots_nodup (config : SchedulerConfig) : (donorSlots config).Nodup :=
  List.nodup_range.map fun _ _ same => Nat.add_left_cancel same

/-- No donor sits under this key. -/
def PrefixCache.NoDonorAt (c : PrefixCache) (hash : UInt64) : Prop :=
  ∀ p ∈ c.pairs, p.1 = hash → p.2.retained = false

/-- The books over a pool and a cache: `held` is what the page tables reference. -/
structure Ledger (config : SchedulerConfig) (a : BlockAllocator) (c : PrefixCache)
    (held lostBlocks lostSlots : List Nat) : Prop where
  blockSize : a.blockSize = config.blockSize
  total : a.total = config.kvBlocks
  capacity : c.donorCapacity = config.prefixDonors
  accounts : a.Accounts (held ++ (c.pinned ++ lostBlocks))
  donors : (c.freeDonorSlots ++ (c.donorsNamed ++ lostSlots)).Perm (donorSlots config)
  distinct : ∀ p ∈ c.pairs, p.2.retained = true → p.2.blocks.Nodup

namespace Ledger

variable {σ : Type} {w : World σ} {config : SchedulerConfig}
variable {a : BlockAllocator} {c : PrefixCache} {held lostBlocks lostSlots : List Nat}

/-- A retained entry sits in a donor slot. -/
theorem donor_of_retained (ledger : Ledger config a c held lostBlocks lostSlots)
    {p : UInt64 × Entry} (member : p ∈ c.pairs) (kept : p.2.retained = true) :
    p.2.seq ∈ donorSlots config := by
  refine ledger.donors.mem_iff.mp (List.mem_append_right _ (List.mem_append_left _ ?_))
  exact List.mem_flatMap.mpr ⟨p, member, by simp [PrefixCache.slotBy, kept]⟩

theorem pinned_of_retained {p : UInt64 × Entry} (member : p ∈ c.pairs)
    (kept : p.2.retained = true) : p.2.blocks ⊆ c.pinned := by
  intro b inside
  exact List.mem_flatMap.mpr ⟨p, member, by simpa [PrefixCache.pinnedBy, kept] using inside⟩

theorem touch (ledger : Ledger config a c held lostBlocks lostSlots) {c' : PrefixCache}
    (same : c.SameEntries c') : Ledger config a c' held lostBlocks lostSlots where
  blockSize := ledger.blockSize
  total := ledger.total
  capacity := same.donorCapacity.trans ledger.capacity
  accounts := by simpa only [PrefixCache.pinned, same.pairs] using ledger.accounts
  donors := by
    simpa only [PrefixCache.donorsNamed, same.pairs, same.freeDonorSlots] using ledger.donors
  distinct := by simpa only [same.pairs] using ledger.distinct

theorem congr (ledger : Ledger config a c held lostBlocks lostSlots) {held' : List Nat}
    (same : ∀ b, held.count b = held'.count b) : Ledger config a c held' lostBlocks lostSlots :=
  { ledger with
    accounts := ledger.accounts.congr fun b => by simp [List.count_append, same b] }

/-- A page table grows by fresh blocks. -/
theorem grow {table table' : BlockTable} {a' : BlockAllocator} {n : Nat}
    (ledger : Ledger config a c (table.blocks ++ held) lostBlocks lostSlots)
    (grown : table.ensureCapacity n a = some (table', a')) :
    Ledger config a' c (table'.blocks ++ held) lostBlocks lostSlots ∧
      ∃ extra, table'.blocks = table.blocks ++ extra ∧ extra.Nodup ∧
        ∀ b ∈ extra, b ∉ table.blocks ++ (held ++ (c.pinned ++ lostBlocks)) := by
  have accounts := ledger.accounts
  rw [List.append_assoc] at accounts
  obtain ⟨extra, appended, after, nodup, fresh, total, size, _⟩ :=
    BlockTable.ensureCapacity_spec accounts grown
  refine ⟨⟨size.trans ledger.blockSize, total.trans ledger.total, ledger.capacity, ?_,
    ledger.donors, ledger.distinct⟩, extra, appended, nodup, fresh⟩
  rw [List.append_assoc]
  exact after

/-- A page table takes over blocks that are held already. -/
theorem share (ledger : Ledger config a c held lostBlocks lostSlots) (shared : List Nat)
    (known : ∀ b ∈ shared, b ∈ held ++ (c.pinned ++ lostBlocks)) :
    Ledger config (shared.foldl BlockAllocator.incref a) c (shared ++ held) lostBlocks lostSlots := by
  obtain ⟨total, size, _⟩ := BlockAllocator.increfs_frame (a := a) shared
  refine ⟨size.trans ledger.blockSize, total.trans ledger.total, ledger.capacity, ?_, ledger.donors,
    ledger.distinct⟩
  rw [List.append_assoc]
  exact ledger.accounts.increfs known

/-- A page table is given back. -/
theorem giveBack {blocks : List Nat}
    (ledger : Ledger config a c (blocks ++ held) lostBlocks lostSlots) :
    Ledger config (a.free blocks) c held lostBlocks lostSlots := by
  obtain ⟨total, size⟩ := BlockAllocator.free_frame (a := a) blocks
  refine ⟨size.trans ledger.blockSize, total.trans ledger.total, ledger.capacity, ?_, ledger.donors,
    ledger.distinct⟩
  have accounts := ledger.accounts
  rw [List.append_assoc] at accounts
  exact accounts.free

/-- No donor sits in a batch slot. -/
theorem outside_of_batch (ledger : Ledger config a c held lostBlocks lostSlots) {seq : Nat}
    (batch : seq < config.maxBatchSize) : ∀ p ∈ c.pairs, p.2.retained = true → p.2.seq ≠ seq := by
  intro p member kept same
  have above := mem_donorSlots (ledger.donor_of_retained member kept)
  omega

/-- No donor sits in a slot that is lost. -/
theorem outside_of_lost (ledger : Ledger config a c held lostBlocks lostSlots) {seq : Nat}
    (lost : seq ∈ lostSlots) : ∀ p ∈ c.pairs, p.2.retained = true → p.2.seq ≠ seq := by
  intro p member kept same
  have nodup := ledger.donors.nodup_iff.mpr (donorSlots_nodup config)
  have apart := (List.nodup_append.mp (List.nodup_append.mp nodup).2.1).2.2
  refine apart p.2.seq (List.mem_flatMap.mpr ⟨p, member, ?_⟩) seq lost same
  simp [PrefixCache.slotBy, kept]

/-- The live entries of a slot go away. -/
theorem evictSequence (ledger : Ledger config a c held lostBlocks lostSlots) (seq : Nat)
    (live : ∀ p ∈ c.pairs, p.2.retained = true → p.2.seq ≠ seq) :
    Ledger config a (c.evictSequence seq) held lostBlocks lostSlots := by
  have unpinned : ∀ p ∈ c.pairs, p.2.seq = seq → p.2.retained = false := by
    intro p member same
    cases kept : p.2.retained with
    | false => rfl
    | true => exact absurd same (live p member kept)
  refine ⟨ledger.blockSize, ledger.total, ledger.capacity, ?_, ?_, ?_⟩
  · have same : (c.evictSequence seq).pinned = c.pinned :=
      PrefixCache.evictSequence_flatMap fun p member same => by
        simp [PrefixCache.pinnedBy, unpinned p member same]
    simpa only [same] using ledger.accounts
  · have same : (c.evictSequence seq).donorsNamed = c.donorsNamed :=
      PrefixCache.evictSequence_flatMap fun p member same => by
        simp [PrefixCache.slotBy, unpinned p member same]
    simpa only [same, PrefixCache.evictSequence_freeDonorSlots live] using ledger.donors
  · intro p member
    rw [PrefixCache.evictSequence_pairs] at member
    exact ledger.distinct p (List.mem_of_mem_filter member)

/-- A donor is given up: its blocks and its slot come back. -/
theorem evictDonor (ledger : Ledger config a c held lostBlocks lostSlots) {donor : Entry}
    {c' : PrefixCache} (evicted : c.evictLruRetained = some (donor, c')) :
    Ledger config (a.free donor.blocks) c' held lostBlocks lostSlots := by
  obtain ⟨hash, member, kept, rest, split, slots, capacity⟩ :=
    PrefixCache.evictLruRetained_eq_some evicted
  obtain ⟨total, size⟩ := BlockAllocator.free_frame (a := a) donor.blocks
  have pinned := split.flatMap_right PrefixCache.pinnedBy
  have named := split.flatMap_right PrefixCache.slotBy
  simp only [List.flatMap_cons, PrefixCache.pinnedBy, PrefixCache.slotBy, kept, if_true] at pinned named
  refine ⟨size.trans ledger.blockSize, total.trans ledger.total, capacity.trans ledger.capacity,
    ?_, ?_, ?_⟩
  · refine BlockAllocator.Accounts.free (ledger.accounts.congr fun b => ?_)
    have count := pinned.count_eq b
    simp only [List.count_append] at count
    simp only [PrefixCache.pinned, List.count_append]
    omega
  · refine List.Perm.trans ?_ ledger.donors
    rw [List.perm_iff_count]
    intro slot
    have count := named.count_eq slot
    simp only [slots, PrefixCache.donorsNamed, List.count_append, List.count_cons,
      List.count_nil] at count ⊢
    omega
  · intro p inside
    rw [rest] at inside
    exact ledger.distinct p (List.mem_of_mem_filter inside)

/-- A donor slot is taken: until an entry names it, it counts as lost. -/
theorem takeDonorSlot (ledger : Ledger config a c held lostBlocks lostSlots) {slot : Nat}
    {c' : PrefixCache} (taken : c.takeDonorSlot = some (slot, c')) :
    Ledger config a c' held lostBlocks (slot :: lostSlots) := by
  obtain ⟨stack, pairs, capacity⟩ := PrefixCache.takeDonorSlot_eq_some taken
  refine ⟨ledger.blockSize, ledger.total, capacity.trans ledger.capacity, ?_, ?_, ?_⟩
  · simpa only [PrefixCache.pinned, pairs] using ledger.accounts
  · refine List.Perm.trans ?_ ledger.donors
    simp only [PrefixCache.donorsNamed, pairs, stack]
    rw [← List.append_assoc]
    exact List.perm_middle.trans (by simp)
  · simpa only [pairs] using ledger.distinct

/-- Writing an entry: what the entry under the same key held is lost. -/
theorem insert (ledger : Ledger config a c held lostBlocks lostSlots) (hash : UInt64) (entry : Entry)
    {a' : BlockAllocator} {held' lostSlots' : List Nat}
    (pays : a'.Accounts (held' ++ (PrefixCache.pinnedBy (hash, entry) ++ (c.pinned ++ lostBlocks))))
    (frame : a'.total = a.total ∧ a'.blockSize = a.blockSize)
    (slot : lostSlots.Perm (PrefixCache.slotBy (hash, entry) ++ lostSlots'))
    (distinct : entry.retained = true → entry.blocks.Nodup) :
    Ledger config a' (c.insert hash entry) held'
      (c.underKey hash PrefixCache.pinnedBy ++ lostBlocks)
      (c.underKey hash PrefixCache.slotBy ++ lostSlots') := by
  have pinned := c.insert_flatMap hash entry PrefixCache.pinnedBy
  have named := c.insert_flatMap hash entry PrefixCache.slotBy
  refine ⟨frame.2.trans ledger.blockSize, frame.1.trans ledger.total, ledger.capacity, ?_, ?_, ?_⟩
  · refine pays.congr fun b => ?_
    have count := pinned.count_eq b
    simp only [List.count_append] at count
    simp only [PrefixCache.pinned, List.count_append]
    omega
  · refine List.Perm.trans ?_ ledger.donors
    rw [List.perm_iff_count]
    intro donor
    have count := named.count_eq donor
    have lost := slot.count_eq donor
    simp only [List.count_append] at count lost
    simp only [PrefixCache.insert_freeDonorSlots, PrefixCache.donorsNamed, List.count_append]
    omega
  · intro p member
    simp only [PrefixCache.insert_pairs, List.mem_cons] at member
    rcases member with rfl | old
    · exact distinct
    · exact ledger.distinct p (List.mem_of_mem_filter old)

/-- A live entry pins nothing and sits in no donor slot. -/
theorem publish (ledger : Ledger config a c held lostBlocks lostSlots) (hash : UInt64)
    {entry : Entry} (live : entry.retained = false) :
    Ledger config a (c.insert hash entry) held
      (c.underKey hash PrefixCache.pinnedBy ++ lostBlocks)
      (c.underKey hash PrefixCache.slotBy ++ lostSlots) :=
  ledger.insert hash entry (by simpa [PrefixCache.pinnedBy, live] using ledger.accounts) ⟨rfl, rfl⟩
    (by simp [PrefixCache.slotBy, live]) (by simp [live])

/-- Nothing is lost where no donor was. -/
theorem underKey_of_noDonor {hash : UInt64} (noDonor : c.NoDonorAt hash) :
    c.underKey hash PrefixCache.pinnedBy = [] ∧ c.underKey hash PrefixCache.slotBy = [] := by
  cases found : c.find? hash with
  | none => simp [PrefixCache.underKey, found]
  | some record =>
    have live : record.entry.retained = false := noDonor _ (PrefixCache.find?_eq_some found) rfl
    simp [PrefixCache.underKey, found, PrefixCache.pinnedBy, PrefixCache.slotBy, live]

/-! ## The members -/

theorem reclaim {m m' : Scheduler σ}
    (ledger : Ledger config m.blocks m.prefixCache held lostBlocks lostSlots)
    (evicted : m.reclaimDonorBlocks w = some m') :
    Ledger config m'.blocks m'.prefixCache held lostBlocks lostSlots := by
  simp only [Scheduler.reclaimDonorBlocks] at evicted
  split at evicted
  · cases evicted
  · rename_i found
    cases evicted
    exact ledger.evictDonor found

theorem takeSlot {m m' : Scheduler σ} {slot : Nat}
    (ledger : Ledger config m.blocks m.prefixCache held lostBlocks lostSlots)
    (taken : m.takeSlot w = some (slot, m')) :
    Ledger config m'.blocks m'.prefixCache held lostBlocks (slot :: lostSlots) := by
  simp only [Scheduler.takeSlot] at taken
  split at taken
  · rename_i popped
    cases taken
    exact ledger.takeDonorSlot popped
  · split at taken
    · cases taken
    · rename_i evicted
      have reclaimed := ledger.reclaim evicted
      split at taken
      · cases taken
      · rename_i popped
        cases taken
        exact reclaimed.takeDonorSlot popped

end Ledger

namespace Ledger

variable {σ : Type} {w : World σ} {config : SchedulerConfig} {held lostBlocks lostSlots : List Nat}

open Scheduler (keptEntry keptHash Retainable)

/-- A donor slot the engine refuses is lost. -/
theorem refused {m m₁ : Scheduler σ} {slot : Nat}
    (ledger : Ledger config m.blocks m.prefixCache held lostBlocks lostSlots)
    (taken : m.takeSlot w = some (slot, m₁)) :
    Ledger config m₁.blocks (m₁.prefixCache.evictSequence slot) held lostBlocks (slot :: lostSlots) :=
  (ledger.takeSlot taken).evictSequence slot ((ledger.takeSlot taken).outside_of_lost List.mem_cons_self)

/-- Keeping a prefix loses at most what the entry under its key held, or the donor slot. -/
theorem retains {job : Job} {m m' : Scheduler σ}
    (ledger : Ledger config m.blocks m.prefixCache held lostBlocks lostSlots)
    (retains : Scheduler.Retains w config job m m')
    (table : ∀ b ∈ job.blocks.blocks, b ∈ held) (nodup : job.blocks.blocks.Nodup) :
    ∃ lostBlocks' lostSlots', Ledger config m'.blocks m'.prefixCache held lostBlocks' lostSlots' ∧
      ((Retainable config job → m.prefixCache.NoDonorAt (keptHash config job)) →
        lostBlocks' = lostBlocks ∧ (w.OnlyDecodeThrows → lostSlots' = lostSlots)) := by
  cases retains with
  | nothing => exact ⟨lostBlocks, lostSlots, ledger, fun _ => ⟨rfl, fun _ => rfl⟩⟩
  | @notBegun slot m₁ message port taken begins =>
    refine ⟨lostBlocks, slot :: lostSlots, ledger.refused taken, ?_⟩
    exact fun _ => ⟨rfl, fun engine => absurd begins engine.begin_ne_error⟩
  | @notCopied slot m₁ begun message port taken begins copies =>
    refine ⟨lostBlocks, slot :: lostSlots, ledger.refused taken, ?_⟩
    exact fun _ => ⟨rfl, fun engine => absurd copies engine.copy_ne_error⟩
  | @kept slot m₁ begun copied caching whole backed taken begins copies =>
    have taking := ledger.takeSlot taken
    have sub : ∀ b ∈ (keptEntry config job slot).blocks,
        b ∈ held ++ (m₁.prefixCache.pinned ++ lostBlocks) := by
      intro b member
      exact List.mem_append_left _ (table b (List.mem_of_mem_take member))
    obtain ⟨total, size, _⟩ := BlockAllocator.increfs_frame (a := m₁.blocks)
      (keptEntry config job slot).blocks
    have paid : ((keptEntry config job slot).blocks.foldl BlockAllocator.incref m₁.blocks).Accounts (held ++
        (PrefixCache.pinnedBy (keptHash config job, keptEntry config job slot) ++
          (m₁.prefixCache.pinned ++ lostBlocks))) := by
      refine (taking.accounts.increfs sub).congr fun b => ?_
      simp only [PrefixCache.pinnedBy, keptEntry, if_true, List.count_append]
      omega
    refine ⟨_, _, taking.insert (keptHash config job) (keptEntry config job slot) paid ⟨total, size⟩
      (show (slot :: lostSlots).Perm (_ ++ lostSlots) by simp [PrefixCache.slotBy, keptEntry])
      (fun _ => nodup.sublist (List.take_sublist _ _)), ?_⟩
    intro noDonor
    have nothing : m₁.prefixCache.NoDonorAt (keptHash config job) :=
      fun p member => noDonor ⟨caching, whole, backed⟩ p (Scheduler.takeSlot_pairs taken member)
    rw [(underKey_of_noDonor nothing).1, (underKey_of_noDonor nothing).2]
    exact ⟨rfl, fun _ => rfl⟩

/-- A job of the batch is dismissed: no donor sits in its slot. -/
theorem dismiss {job : Job} {m : Scheduler σ} (ledger : Ledger config m.blocks m.prefixCache held lostBlocks lostSlots)
    (batch : job.state.seq < config.maxBatchSize) :
    Ledger config (m.dismiss w job).blocks (m.dismiss w job).prefixCache held lostBlocks lostSlots := by
  apply ledger.evictSequence
  apply ledger.outside_of_batch
  rw [(SequenceState.finish_same (w := w) job.state m.port).seq]
  exact batch

/-- Retiring a job gives its table back, and loses at most what keeping its prefix does. -/
theorem retire {job : Job} {m : Scheduler σ}
    (ledger : Ledger config m.blocks m.prefixCache (job.blocks.blocks ++ held) lostBlocks lostSlots)
    (batch : job.state.seq < config.maxBatchSize) (nodup : job.blocks.blocks.Nodup) :
    ∃ lostBlocks' lostSlots', Ledger config (m.retire w config job).blocks
        (m.retire w config job).prefixCache held lostBlocks' lostSlots' ∧
      ((Retainable config job → m.prefixCache.NoDonorAt (keptHash config job)) →
        lostBlocks' = lostBlocks ∧ (w.OnlyDecodeThrows → lostSlots' = lostSlots)) := by
  have same := SequenceState.finish_same (w := w) job.state m.port
  obtain ⟨lostBlocks', lostSlots', after, keeps⟩ := (ledger.dismiss batch).retains
    (Scheduler.dismiss_retains w config job m) (fun b member => List.mem_append_left _ member) nodup
  refine ⟨lostBlocks', lostSlots', after.giveBack, fun noDonor => keeps ?_⟩
  intro retainable p member
  simp only [Retainable, same.prompt] at retainable
  simp only [keptHash, same.prompt]
  rw [Scheduler.dismiss, PrefixCache.evictSequence_pairs] at member
  exact noDonor retainable p (List.mem_of_mem_filter member)

end Ledger

end MicroVllm
