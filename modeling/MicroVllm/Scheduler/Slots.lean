import MicroVllm.Scheduler.Seniority

/-! # Slots

The batch slots as the loop and the engine see them.  A slot is free or held by one active
job, the loop never owns more requests than it has slots, and a free slot is empty in the
engine: whatever path took a job out of the batch has released its slot.
-/

namespace MicroVllm

/-- A `decode` that throws registers no slot. -/
def Tracker.Inert {σ α : Type} {w : World σ} {kind : CellKind α} (T : Tracker w kind) : Prop :=
  ∀ past s s' items message, w.decode items s = (.error message, s') →
    ∀ slot, T.kv past s slot = none → T.kv (past ++ [.decode items false]) s' slot = none

theorem Tracker.inert_history {σ α : Type} (w : World σ) (kind : CellKind α) (counted : Bool) :
    (Tracker.history w kind counted).Inert := by
  intro past _ _ items _ _ slot empty
  show replay kind counted (past ++ [.decode items false]) slot = none
  rw [replay_append, Event.effect]
  have empty : replay kind counted past slot = none := empty
  split
  · rw [Kv.feed_apply, empty]
    rfl
  · exact empty

theorem Tracker.Inert.contents_decode {σ α : Type} {w : World σ} {kind : CellKind α}
    {T : Tracker w kind} (inert : T.Inert) {past : List Event} {port port' : Port σ}
    {items : List BatchItem} {message : String} {slot : Nat}
    (threw : port.decode w items = (.error message, port')) (empty : T.contents past port slot = none) :
    T.contents past port' slot = none := by
  obtain ⟨result, world, called⟩ : ∃ result world, w.decode items port.world = (result, world) :=
    ⟨_, _, rfl⟩
  simp only [Port.decode, called, Prod.mk.injEq] at threw
  obtain ⟨rfl, rfl⟩ := threw
  simp only [contents, ← List.append_assoc]
  exact inert _ _ _ _ _ called slot empty

namespace Continuous

variable {σ α : Type} {w : World σ} {config : SchedulerConfig} {kind : CellKind α}
variable {s s' : Continuous σ} {q q' : RequestQueue} {past : List Event}

/-! ## Owned requests -/

/-- The number of requests the loop owns. -/
def owned (s : Continuous σ) : Nat := s.pending.length + s.pc.inHand.length + s.active.length

/-- Only taking work from the queue adds to it, and that asks for room. -/
theorem Move.owned_le (move : Move w config s q s' q') (within : s.owned ≤ config.maxBatchSize) :
    s'.owned ≤ config.maxBatchSize := by
  have sameLength : ∀ {jobs jobs' : List Job}, List.Forall₂ Job.SameTable jobs jobs' →
      jobs'.length = jobs.length := fun same => same.length_eq.symm
  unfold owned at within ⊢
  cases move with
  | take pc room front =>
    -- the guard of the loop that takes work
    simp only [pc, Pc.inHand, List.length_append, List.length_singleton, List.length_nil] at within ⊢
    omega
  | make pc next free begun | makeCrash pc next free begun =>
    simp only [pc, next, Pc.inHand, List.length_cons, List.length_nil] at within ⊢
    omega
  | admitted pc =>
    simp only [pc, Pc.inHand, List.length_nil] at within
    split <;> exact within
  | reject pc =>
    simp only [pc, Continuous.reject, Pc.inHand, List.length_cons, List.length_nil] at within ⊢
    omega
  | defer pc unfinished full busy =>
    simp only [pc, Continuous.defer, busy, if_false, Pc.inHand, List.length_cons, List.length_nil] at within ⊢
    omega
  | placeFailed pc | place pc | adopt pc =>
    simp only [pc, Continuous.place, Pc.inHand, List.length_append, List.length_cons,
      List.length_nil] at within ⊢
    omega
  | adoptCrash pc =>
    simp only [pc, Pc.inHand, List.length_cons, List.length_nil] at within ⊢
    omega
  | buildNothing pc | decode pc =>
    simp only [pc, Pc.inHand, List.length_nil, sameLength (same_build _ _ _)] at within ⊢
    exact within
  | decodeFail pc =>
    simp only [pc, Pc.inHand, List.length_nil, sameLength (same_failAll _ _),
      sameLength (same_build _ _ _)] at within ⊢
    exact within
  | acceptFail pc =>
    simp only [pc, Pc.inHand, List.length_nil, sameLength (same_failAll _ _)] at within ⊢
    exact within
  | acceptFinish pc here | acceptStarve pc here | acceptGrow pc here | acceptPublish pc here
  | resolveFail pc here | reclaimGrow pc here | preemptGrow pc here | sweepRetire pc here
  | preemptEvict pc starving named full here =>
    simp only [pc, here, Pc.inHand, List.length_append, List.length_cons, List.length_nil] at within ⊢
    omega
  | giveUp | reclaimDonor => exact within
  | leave pc | finish pc | acceptEnd pc | acceptStray pc | sweepKeep pc | sweepResolve pc | sweepLoop pc
  | resolveEnd pc | resolveGone pc | resolveRoom pc | reclaimGone pc | reclaimEnd pc | preemptGone pc
  | preemptEnd pc =>
    simp only [pc, Pc.inHand, List.length_nil] at within ⊢
    exact within

/-! ## Free slots are empty -/

/-- A free slot that no job is in hand for holds nothing. -/
def Vacant (T : Tracker w kind) (past : List Event) (s : Continuous σ) : Prop :=
  (∀ message, s.pc ≠ .crashed message) →
    ∀ slot ∈ s.freeSlots, slot ∉ seqs s.pc.inHand → T.contents past s.port slot = none

variable (T : Tracker w kind)

/-- A move that frees no slot and fills none. -/
theorem Vacant.frame (vacant : Vacant T past s) (alive : ∀ message, s.pc ≠ .crashed message)
    (slots : s'.freeSlots = s.freeSlots) (hand : s'.pc.inHand = s.pc.inHand)
    (held : ∀ slot ∈ s.freeSlots, T.contents past s.port slot = none →
      T.contents past s'.port slot = none) : Vacant T past s' := by
  intro _ slot free outside
  rw [slots] at free
  rw [hand] at outside
  exact held slot free (vacant alive slot free outside)

/-- A released slot is empty. -/
theorem release_none (kv : Kv α) {seq slot : Nat} (held : slot ≠ seq → kv slot = none) :
    kv.release seq slot = none := by
  by_cases same : slot = seq
  · exact if_pos same
  · rw [Kv.release_other same]
    exact held same

theorem Vacant.move {lostBlocks lostSlots : List Nat} (vacant : Vacant T past s) (inert : T.Inert)
    (layout : Layout w config s) (books : Books config s lostBlocks lostSlots)
    (move : Move w config s q s' q') : Vacant T past s' := by
  have reclaims : ∀ {members}, s.reclaimDonorBlocks w = some members → ∀ slot ∈ s.freeSlots,
      T.contents past s.port slot = none → T.contents past members.port slot = none := by
    intro members evicted slot free empty
    rw [books.ledger.contents_reclaim T evicted (not_donorSlot (layout.lt_of_free free))]
    exact empty
  -- the slot in hand is the first free one, and no other free slot is it
  have behind : ∀ {job}, s.pc = .reserve job → ∀ slot ∈ s.freeSlots.tail, slot ≠ job.state.seq := by
    intro job pc slot later
    obtain ⟨request, first, slots, rfl, free⟩ := layout.hand job pc
    have nodup := (List.nodup_append.mp layout.nodup_all).1
    rw [free] at nodup later
    rw [Scheduler.newJob_seq]
    exact fun same => (List.nodup_cons.mp nodup).1 (same ▸ later)
  have joins : ∀ {job}, s.pc = .reserve job → ∀ slot ∈ s.freeSlots.tail,
      T.contents past s.port slot = none := by
    intro job pc slot later
    apply vacant (by simp [pc]) slot (List.mem_of_mem_tail later)
    simpa [pc, Pc.inHand] using behind pc slot later
  cases move with
  | @make request pending first slots port pc next stack begun =>
    intro _ slot free outside
    have other : slot ≠ first := by simpa [Pc.inHand] using outside
    rw [T.contents_begin begun, Kv.begin_other other]
    exact vacant (by simp [pc]) slot free (by simp [pc, Pc.inHand])
  | makeCrash | adoptCrash => exact fun alive => absurd rfl (alive _)
  | giveUp pc short evicted | reclaimDonor pc here full evicted =>
    exact vacant.frame T (by simp [pc]) rfl rfl (reclaims evicted)
  | @reject job pc =>
    intro _ slot free _
    simp only [Continuous.reject, T.contents_deliver, T.contents_release, T.contents_finish]
    apply release_none
    intro other
    exact vacant (by simp [pc]) slot free (by simpa [pc, Pc.inHand] using other)
  | @defer job pc =>
    intro _ slot free _
    simp only [Continuous.defer, T.contents_note _ _ (Event.ghost_stat _ _), T.contents_release]
    apply release_none
    intro other
    exact vacant (by simp [pc]) slot free (by simpa [pc, Pc.inHand] using other)
  | placeFailed pc | place pc =>
    intro _ slot free _
    simp only [Continuous.place, T.contents_note _ _ (Event.ghost_stat _ _)]
    exact joins pc slot free
  | adopt pc fits same caching found positive within copied =>
    intro _ slot free _
    simp only [Continuous.place, Tracker.contents_note, Event.ghost_stat, Event.ghost_hit,
      T.contents_copy copied]
    rw [Kv.copy_other (behind pc slot free)]
    exact joins pc slot free
  | decode pc something returned =>
    refine vacant.frame T (by simp [pc]) rfl (by simp [pc, Pc.inHand]) ?_
    intro slot _ empty
    rw [T.contents_decode returned, Kv.feed_apply, empty]
    rfl
  | decodeFail pc something threw =>
    -- what a decode that throws does to other slots is unknown, but it registers none
    refine vacant.frame T (by simp [pc]) rfl (by simp [pc, failAll, Pc.inHand]) ?_
    intro slot _ empty
    simp only [failAll]
    exact inert.contents_decode threw empty
  | acceptFail pc => exact vacant.frame T (by simp [pc]) rfl (by simp [pc, failAll, Pc.inHand]) fun _ _ => id
  | acceptFinish pc here accepted =>
    refine vacant.frame T (by simp [pc]) rfl (by simp [pc, Pc.inHand]) ?_
    intro slot _ empty
    rw [T.contents_finish, T.contents_accept accepted]
    exact empty
  | acceptStarve pc here accepted | acceptGrow pc here accepted =>
    refine vacant.frame T (by simp [pc]) rfl (by simp [pc, Pc.inHand]) ?_
    intro slot _ empty
    rw [T.contents_accept accepted]
    exact empty
  | acceptPublish pc here accepted =>
    refine vacant.frame T (by simp [pc]) rfl (by simp [pc, Pc.inHand]) ?_
    intro slot _ empty
    rw [T.contents_note _ _ (Event.ghost_index _ _ _ _), T.contents_accept accepted]
    exact empty
  | @sweepRetire starved before job after pc here finished =>
    have active : job ∈ s.active := by rw [here]; simp
    intro _ slot free _
    rw [List.mem_cons] at free
    by_cases own : slot = job.state.seq
    · -- releasing the slot is the last thing the engine hears
      rw [own]
      simp only [Scheduler.retire, T.contents_deliver, T.contents_note _ _ (Event.ghost_stat _ _),
        T.contents_release]
      apply release_none
      intro other
      exact absurd (SequenceState.finish_same _ _).seq.symm other
    · have old := free.resolve_left own
      rw [books.ledger.contents_retire T (layout.lt_of_active active) own
        (not_donorSlot (layout.lt_of_free old))]
      exact vacant (by simp [pc]) slot old (by simp [pc, Pc.inHand])
  | sweepLoop pc =>
    refine vacant.frame T (by simp [pc]) rfl (by simp [pc, Pc.inHand]) ?_
    intro slot _ empty
    rw [T.contents_note _ _ (Event.ghost_stat _ _)]
    exact empty
  | resolveFail pc here large failed =>
    subst failed
    refine vacant.frame T (by simp [pc]) rfl (by simp [pc, Pc.inHand]) ?_
    intro slot _ empty
    rw [T.contents_finish]
    exact empty
  | preemptEvict pc =>
    -- the victim's slot is free again, and has been released
    intro _ slot free _
    simp only [T.contents_note _ _ (Event.ghost_stat _ _), T.contents_note _ _ (Event.ghost_preempt _ _ _ _),
      T.contents_release]
    apply release_none
    intro other
    exact vacant (by simp [pc]) slot ((List.mem_cons.mp free).resolve_left other) (by simp [pc, Pc.inHand])
  | admitted pc =>
    refine vacant.frame T (by simp [pc]) rfl ?_ fun _ _ => id
    rw [pc]
    simp only
    split <;> rfl
  | take pc | leave pc | finish pc | buildNothing pc | acceptEnd pc | acceptStray pc | sweepKeep pc
  | sweepResolve pc | resolveEnd pc | resolveGone pc | resolveRoom pc | reclaimGone pc | reclaimGrow pc
  | reclaimEnd pc | preemptGone pc | preemptGrow pc | preemptEnd pc =>
    exact vacant.frame T (by simp [pc]) rfl (by simp [pc, Pc.inHand]) fun _ _ => id

end Continuous

namespace Server

variable {σ : Type} {w : World σ} {config : SchedulerConfig} {capacity : Nat} {world : σ}
variable {past : List Event} {s : Server (Continuous σ)}

theorem owned_run (run : (continuous w config capacity world).Run past s) :
    s.thread.owned ≤ (config.construct w.caps).maxBatchSize := by
  refine continuous_thread_invariant ?_ ?_ run.guarded_true
  · exact Nat.zero_le _
  · exact fun _ _ _ _ _ _ within move _ => move.owned_le within

theorem vacant_run {α : Type} {kind : CellKind α} (T : Tracker w kind) (inert : T.Inert)
    (empty : ∀ slot, T.kv [] world slot = none) (apart : config.Apart)
    (run : (continuous w config capacity world).Run past s) : s.thread.Vacant T past := by
  refine continuous_thread_invariant ?_ ?_ run.guarded_true
  · exact fun _ slot _ _ => empty slot
  · intro past s thread queue earlier settled vacant move _
    obtain ⟨lostBlocks, lostSlots, books⟩ := books_run apart earlier.of_guarded
    have after := vacant.move T inert settled.layout books move
    intro alive slot free outside
    rw [Continuous.contents_quiet]
    exact after alive slot free outside

end Server

/-- At the top of the loop every batch slot is free or held by one active job, the loop owns no
    more requests than it has slots, the active jobs stand in the order of their admission, and
    a free slot is neither registered with the engine nor holds any token, whether or not a
    `decode` that threw fed what it was given. -/
theorem slot_discipline {σ : Type} (w : World σ) (config : SchedulerConfig) (capacity : Nat)
    (world : σ) (batch : 1 ≤ config.maxBatchSize) (past : List Event) (s : Server (Continuous σ))
    (run : (Server.continuous w config capacity world).Run past s)
    (boundary : s.thread.pc = .takeWork) :
    (s.thread.freeSlots ++ seqs s.thread.active).Perm
        (List.range (config.construct w.caps).maxBatchSize) ∧
      s.thread.pending.length + s.thread.active.length ≤ (config.construct w.caps).maxBatchSize ∧
      (seqs s.thread.active).Pairwise (AdmittedBefore past) ∧
      ∀ slot ∈ s.thread.freeSlots, ∀ counted, replay .token counted past slot = none := by
  have settled := Server.settled_run run
  have owned := Server.owned_run run
  have ranked := Server.ranked_run run
  refine ⟨settled.layout.slots, ?_, ?_, ?_⟩
  · simpa [Continuous.owned, boundary, Pc.inHand] using owned
  · rw [List.pairwise_iff_forall_sublist]
    exact fun pair => pair.trans ranked.order
  · intro slot free counted
    have vacant := Server.vacant_run (Tracker.history w .token counted)
      (Tracker.inert_history w .token counted) (fun _ => rfl) (.inl batch) run
    have empty := vacant (by simp [boundary]) slot free (by simp [boundary, Pc.inHand])
    rwa [Tracker.contents, settled.silent, List.append_nil] at empty

/-- Two requests in a pool of five blocks, after the first one has lost its slot: the slot is
    free again and empty. -/
theorem slot_discipline_letter :
    ∃ past s, (Server.continuous Script.letter.world (.pair 5) 4 fun _ => none).Run past s ∧
      s.thread.freeSlots = [0] ∧ .preempt 0 0 1 2 ∈ past ∧ replay .token true past 0 = none := by
  obtain ⟨past, s, run, boundary, free, evicted⟩ : ∃ past s,
      (Server.continuous Script.letter.world (.pair 5) 4 fun _ => none).Run past s ∧
        (s.thread.pc = .takeWork ∧ s.thread.freeSlots = [0] ∧ .preempt 0 0 1 2 ∈ past) :=
    Server.exists_run ([.push { id := 0, spec := { prompt := [1], maxTokens := 4 } },
      .push { id := 1, spec := { prompt := [1], maxTokens := 4 } }] ++
      List.replicate 35 .run) rfl rfl (by decide +kernel)
  have discipline := slot_discipline _ _ _ _ (by decide) past s run boundary
  exact ⟨past, s, run, free, evicted, discipline.2.2.2 0 (by simp [free]) true⟩

end MicroVllm
