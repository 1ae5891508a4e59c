import MicroVllm.Scheduler.Refusals

/-! # Where the constructor puts the slots

A sequence id is a batch slot of `run_continuous` or a donor slot of the prefix cache, and the engine
aborts on one it was not built for.  The constructor clamps both ranges to the engine.  It places
the donors above the batch size it has settled on, and only then turns a batch size of zero into
one: with that size the first donor slot is the only batch slot.
-/

namespace MicroVllm

namespace SchedulerConfig

variable {caps : EngineCaps} {config : SchedulerConfig}

/-- The donor slots are placed above all batch slots. -/
def Placed (config : SchedulerConfig) : Prop :=
  config.maxBatchSize ≠ 0 ∨ config.prefixCaching = false ∨ config.prefixDonors = 0

instance : Decidable config.Placed := inferInstanceAs (Decidable (_ ∨ _ ∨ _))

theorem settle_maxBatchSize (config : SchedulerConfig) (slots : 1 ≤ caps.nSeqMax) :
    (config.settle caps).maxBatchSize = min config.maxBatchSize caps.nSeqMax := by
  simp only [settle, clampDonors, sizePool, clampBatch]
  split
  · simp only
    omega
  · omega

theorem settle_prefixDonors (config : SchedulerConfig) (slots : 1 ≤ caps.nSeqMax)
    (addressable : caps.nSeqMax < 2 ^ 31) :
    (config.settle caps).prefixDonors =
      min (if config.prefixCaching then config.prefixDonors else 0)
        (caps.nSeqMax - min config.maxBatchSize caps.nSeqMax) := by
  have batch := config.settle_maxBatchSize slots
  have caching : ((config.clampBatch caps).sizePool caps).prefixCaching = config.prefixCaching := by
    simp only [sizePool, clampBatch]
    split <;> rfl
  have donors : ((config.clampBatch caps).sizePool caps).prefixDonors = config.prefixDonors := by
    simp only [sizePool, clampBatch]
    split <;> rfl
  -- the cast of the batch size is exact, as the size is clamped already
  have exact32 : toUint32 (min config.maxBatchSize caps.nSeqMax) =
      min config.maxBatchSize caps.nSeqMax := by
    apply Nat.mod_eq_of_lt
    omega
  simp only [settle, clampDonors] at batch ⊢
  rw [batch, caching, donors, exact32]
  split_ifs <;> omega

theorem construct_maxBatchSize (slots : 1 ≤ caps.nSeqMax) :
    (config.construct caps).maxBatchSize = max 1 (min config.maxBatchSize caps.nSeqMax) := by
  have batch := config.settle_maxBatchSize slots
  simp only [construct]
  split
  · simp only
    omega
  · omega

/-- All donor slots are slots of the engine. -/
theorem donorSlots_lt (slots : 1 ≤ caps.nSeqMax) (addressable : caps.nSeqMax < 2 ^ 31) {slot : Nat}
    (donor : slot ∈ donorSlots (config.settle caps)) : slot < caps.nSeqMax := by
  have bound := (mem_donorSlots donor).2
  rw [config.settle_maxBatchSize slots, config.settle_prefixDonors slots addressable] at bound
  omega

/-- If they are placed above the batch, no donor slot is a batch slot. -/
theorem Placed.above (placed : config.Placed) (slots : 1 ≤ caps.nSeqMax)
    (addressable : caps.nSeqMax < 2 ^ 31) {slot : Nat} (donor : slot ∈ donorSlots (config.settle caps)) :
    (config.construct caps).maxBatchSize ≤ slot := by
  obtain ⟨above, bound⟩ := mem_donorSlots donor
  rw [config.settle_maxBatchSize slots] at above bound
  rw [config.settle_prefixDonors slots addressable] at bound
  rw [construct_maxBatchSize slots]
  rcases placed with batch | off | none
  · omega
  · simp only [off, Bool.false_eq_true, if_false] at bound
    omega
  · simp only [none, ite_self] at bound
    omega

/-- Otherwise slot 0 is both. -/
theorem zero_mem_donorSlots (slots : 1 ≤ caps.nSeqMax) (addressable : caps.nSeqMax < 2 ^ 31)
    (collide : ¬ config.Placed) : ∃ rest, donorSlots (config.settle caps) = 0 :: rest := by
  simp only [Placed, not_or, not_not, Bool.not_eq_false] at collide
  obtain ⟨batch, caching, donors⟩ := collide
  have count := config.settle_prefixDonors slots addressable
  rw [batch, caching, if_pos rfl] at count
  obtain ⟨n, some⟩ : ∃ n, (config.settle caps).prefixDonors = n + 1 :=
    ⟨(config.settle caps).prefixDonors - 1, by omega⟩
  rw [donorSlots, config.settle_maxBatchSize slots, some, batch, List.range_succ_eq_map, List.map_cons]
  exact ⟨_, by rw [Nat.zero_min, Nat.zero_add]⟩

end SchedulerConfig

namespace Continuous

variable {σ : Type} {w : World σ} {config : SchedulerConfig}

/-- The slots that `run_continuous` gives to requests: free, or an active job's. -/
def batchSlots (s : Continuous σ) : List Nat := s.freeSlots ++ seqs s.active

/-- `take_donor_slot` hands the slot out, in this state or to the job that retires in it. -/
def HandsOut (w : World σ) (config : SchedulerConfig) (slot : Nat) (s : Continuous σ) : Prop :=
  (∃ cache, s.prefixCache.takeDonorSlot = some (slot, cache)) ∨
    ∃ job m, s.Retires job ∧
      Scheduler.Takes w config (Scheduler.ending w job s.toScheduler) slot (s.retiring w job) m

theorem HandsOut.mem_stock {slot : Nat} {s : Continuous σ} (handed : s.HandsOut w config slot) :
    slot ∈ s.prefixCache.stock := by
  rcases handed with ⟨cache, taken⟩ | ⟨job, m, _, takes⟩
  · rw [PrefixCache.takeDonorSlot_stock taken]
    exact List.mem_cons_self
  · have before := (Scheduler.takeSlot_stock takes.taken).symm.subset List.mem_cons_self
    exact (PrefixCache.evictSequence_stock _).subset before

end Continuous

/-- After construction there is a batch slot; in every state of every run the slots of requests are
    the batch slots, and they and all donor slots that are handed out are slots of the engine.
    The two ranges have nothing in common exactly if the donors were placed above the
    batch. -/
theorem slot_ranges {σ : Type} (w : World σ) (config : SchedulerConfig) (capacity : Nat) (world : σ)
    (slots : 1 ≤ w.caps.nSeqMax) (addressable : w.caps.nSeqMax < 2 ^ 31) :
    let built := config.construct w.caps
    1 ≤ built.maxBatchSize ∧ built.maxBatchSize ≤ w.caps.nSeqMax ∧
      (∀ past s, (Server.continuous w config capacity world).Run past s →
        s.thread.batchSlots.Perm (List.range built.maxBatchSize) ∧
        ∀ slot, s.thread.HandsOut w built slot → slot < w.caps.nSeqMax) ∧
      ((∀ past s, (Server.continuous w config capacity world).Run past s →
        ∀ slot, s.thread.HandsOut w built slot → slot ∉ List.range built.maxBatchSize) ↔
          config.Placed) := by
  intro built
  have donor : ∀ {past s slot}, (Server.continuous w config capacity world).Run past s →
      s.thread.HandsOut w built slot → slot ∈ donorSlots (config.settle w.caps) :=
    fun run handed => (Server.stock_run run).subset handed.mem_stock
  have batch : built.maxBatchSize = _ := SchedulerConfig.construct_maxBatchSize slots
  refine ⟨by omega, by omega, fun past s run => ⟨(Server.settled_run run).layout.slots, ?_⟩, ?_, ?_⟩
  · intro slot handed
    exact SchedulerConfig.donorSlots_lt slots addressable (donor run handed)
  · -- the first slot that the constructed cache hands out is 0
    intro apart
    by_contra collide
    obtain ⟨rest, stack⟩ := SchedulerConfig.zero_mem_donorSlots slots addressable collide
    have handed : (Continuous.start w config world).HandsOut w built 0 := by
      apply Or.inl
      exact ⟨_, by simp only [Continuous.start, Scheduler.make, PrefixCache.configureDonors,
        PrefixCache.takeDonorSlot]; rw [← donorSlots, stack]⟩
    apply apart [] _ (.start rfl) 0 handed
    exact List.mem_range.mpr (by omega)
  · intro placed past s run slot handed inside
    have above : built.maxBatchSize ≤ slot := placed.above slots addressable (donor run handed)
    have below := List.mem_range.mp inside
    omega

/-- No batch size is given, and a donor slot. -/
def SchedulerConfig.batchless : SchedulerConfig := { SchedulerConfig.single 1 with maxBatchSize := 0 }

/-- One request at a time with a donor slot above it. -/
theorem slot_ranges_letter :
    1 ≤ Script.letter.world.caps.nSeqMax ∧ Script.letter.world.caps.nSeqMax < 2 ^ 31 ∧
      (SchedulerConfig.single 1).Placed ∧
      ∀ past s, (Server.continuous Script.letter.world (.single 1) 4 fun _ => none).Run past s →
        ∀ slot, s.thread.HandsOut Script.letter.world
          (SchedulerConfig.construct Script.letter.world.caps (.single 1)) slot → slot ∉ List.range 1 :=
  ⟨by decide, by decide, by decide,
    (slot_ranges Script.letter.world (.single 1) 4 (fun _ => none) (by decide) (by decide)).2.2.2.mpr
      (by decide)⟩

/-- With no batch size given, slot 0 is handed out as a donor slot.  A request leaves its prefix
    there, and then the next request runs in it. -/
theorem slot_ranges_collide_letter :
    ¬ SchedulerConfig.batchless.Placed ∧
      ∃ past s, (Server.continuous Script.letter.world .batchless 4 fun _ => none).Run past s ∧
        0 ∈ List.range (SchedulerConfig.batchless.construct Script.letter.world.caps).maxBatchSize ∧
        ((Continuous.start Script.letter.world .batchless fun _ => none).prefixCache.takeDonorSlot.map
          Prod.fst) = some 0 ∧
        (s.thread.prefixCache.donors.map (·.seq)) = [0] ∧ seqs s.thread.active = [0] := by
  obtain ⟨past, s, run, donor, active⟩ : ∃ past s,
      (Server.continuous Script.letter.world .batchless 4 fun _ => none).Run past s ∧
      ((s.thread.prefixCache.donors.map (·.seq)) = [0] ∧ seqs s.thread.active = [0]) :=
    Server.exists_run ([.push { id := 0, spec := { prompt := [1, 2], maxTokens := 2 } },
      .push { id := 1, spec := { prompt := [3, 4], maxTokens := 2 } }] ++
      List.replicate 36 .run) rfl rfl (by decide +kernel)
  exact ⟨by decide, past, s, run, by decide, by decide +kernel, donor, active⟩

end MicroVllm
