import Mathlib.Algebra.BigOperators.Group.Finset.Basic
import Mathlib.Algebra.Order.BigOperators.Group.Finset
import MicroVllm.Scheduler.Exhaustion
import MicroVllm.Scheduler.Positions
import MicroVllm.Scheduler.Slots

/-! # The budget of the KV cache

What the block pool is for.  The blocks are numbers that the scheduler hands out; the positions they stand
for are in the engine, which has only so many.  Without prefix sharing every token that the engine holds for
a sequence is covered by a block of that sequence, so the engine never holds more tokens than the pool has
room for.
-/

namespace MicroVllm

open Finset (sum_le_sum_of_ne_zero)

/-- The number of positions a slot holds. -/
def Kv.size {α : Type} (kv : Kv α) (slot : Nat) : Nat := (kv slot).elim 0 fun held => held.cells.length

/-- Every token is covered by a block of the job in whose slot it is, and no other slot is registered. -/
structure Backed (blockSize : Nat) (kv : Kv Token) (jobs : List Job) : Prop where
  within : ∀ job ∈ jobs, kv.size job.state.seq ≤ job.blocks.nBlocks * blockSize
  nobody : ∀ slot, slot ∉ seqs jobs → kv slot = none

/-- A job goes on in its slot, with the table it has or a larger one. -/
structure Job.Grows (job job' : Job) : Prop where
  seq : job'.state.seq = job.state.seq
  table : job.blocks.nBlocks ≤ job'.blocks.nBlocks

theorem Job.Grows.refl (job : Job) : job.Grows job := ⟨rfl, Nat.le_refl _⟩

theorem Job.SameTable.grows {job job' : Job} (same : job.SameTable job') : job.Grows job' :=
  ⟨same.state.seq, by rw [BlockTable.nBlocks, BlockTable.nBlocks, same.blocks]⟩

theorem seqs_of_grows {jobs jobs' : List Job} (grow : List.Forall₂ Job.Grows jobs jobs') :
    seqs jobs' = seqs jobs := by
  induction grow with
  | nil => rfl
  | cons head _ ih => simp only [seqs, List.map_cons, head.seq] at ih ⊢; rw [ih]

namespace Backed

variable {blockSize : Nat} {kv kv' : Kv Token} {jobs jobs' : List Job} {job : Job}

theorem size_le (fewer : ∀ slot, kv' slot = kv slot ∨ kv' slot = none) (slot : Nat) :
    kv'.size slot ≤ kv.size slot := by
  rcases fewer slot with same | none
  · rw [Kv.size, Kv.size, same]
  · rw [Kv.size, none]
    exact Nat.zero_le _

/-- The jobs go on, and nothing is fed. -/
theorem goOn (backed : Backed blockSize kv jobs) (grow : List.Forall₂ Job.Grows jobs jobs')
    (fewer : ∀ slot, kv' slot = kv slot ∨ kv' slot = none) : Backed blockSize kv' jobs' := by
  constructor
  · intro job' member
    obtain ⟨job, inside, grows⟩ := Lists.exists_of_forall₂_right grow member
    rw [grows.seq]
    exact ((size_le fewer _).trans (backed.within job inside)).trans (Nat.mul_le_mul_right _ grows.table)
  · intro slot outside
    rw [seqs_of_grows grow] at outside
    exact (fewer slot).elim (fun same => same.trans (backed.nobody slot outside)) id

/-- A job comes to a slot that holds nothing yet. -/
theorem enter (backed : Backed blockSize kv jobs) (empty : kv'.size job.state.seq = 0)
    (fewer : ∀ slot, slot ≠ job.state.seq → kv' slot = kv slot) (free : job.state.seq ∉ seqs jobs) :
    Backed blockSize kv' (jobs ++ [job]) := by
  constructor
  · intro other member
    rcases List.mem_append.mp member with old | new
    · have apart : other.state.seq ≠ job.state.seq := fun same => free (same ▸ mem_seqs.mpr ⟨other, old, rfl⟩)
      have within := backed.within other old
      rwa [Kv.size, ← fewer _ apart] at within
    · rw [List.mem_singleton.mp new, empty]
      exact Nat.zero_le _
  · intro slot outside
    simp only [seqs, List.map_append, List.map_cons, List.map_nil, List.mem_append, List.mem_singleton, not_or]
      at outside
    rw [fewer slot outside.2]
    exact backed.nobody slot outside.1

/-- A job leaves, and its slot is released. -/
theorem leave {before after : List Job} (backed : Backed blockSize kv jobs) (here : jobs = before ++ job :: after)
    (gone : kv' job.state.seq = none) (fewer : ∀ slot, slot ≠ job.state.seq → kv' slot = kv slot) :
    Backed blockSize kv' (before ++ after) := by
  have less : ∀ slot, kv' slot = kv slot ∨ kv' slot = none := by
    intro slot
    by_cases own : slot = job.state.seq
    · exact .inr (own ▸ gone)
    · exact .inl (fewer slot own)
  constructor
  · intro other member
    refine (size_le less _).trans (backed.within other ?_)
    rw [here]
    simp only [List.mem_append, List.mem_cons] at member ⊢
    exact member.imp_right .inr
  · intro slot outside
    by_cases own : slot = job.state.seq
    · exact own ▸ gone
    · rw [fewer slot own]
      refine backed.nobody slot ?_
      rw [here]
      simp only [seqs, List.map_append, List.map_cons, List.mem_append, List.mem_cons, not_or] at outside ⊢
      exact ⟨outside.1, own, outside.2⟩

/-- All the slots together hold no more than the blocks of the jobs have room for. -/
theorem total (backed : Backed blockSize kv jobs) (nodup : (seqs jobs).Nodup) (slots : Finset Nat) :
    ∑ slot ∈ slots, kv.size slot ≤ (tables jobs).length * blockSize := by
  have inside : ∑ slot ∈ slots, kv.size slot ≤ ∑ slot ∈ (seqs jobs).toFinset, kv.size slot := by
    apply sum_le_sum_of_ne_zero
    intro slot _ holds
    rw [List.mem_toFinset]
    by_contra outside
    rw [Kv.size, backed.nobody slot outside] at holds
    exact holds rfl
  have covered : ∀ jobs' : List Job, jobs' ⊆ jobs →
      ((seqs jobs').map kv.size).sum ≤ (tables jobs').length * blockSize := by
    intro jobs' among
    induction jobs' with
    | nil => exact Nat.zero_le _
    | cons job rest ih =>
      have first := backed.within job (among List.mem_cons_self)
      have others := ih fun other member => among (List.mem_cons_of_mem _ member)
      simp only [seqs, tables, List.map_cons, List.sum_cons, List.flatMap_cons, List.length_append, Nat.add_mul]
        at others ⊢
      exact Nat.add_le_add first others
  refine inside.trans ?_
  rw [List.sum_toFinset _ nodup]
  exact covered jobs fun _ member => member

end Backed

/-- A call of `decode` feeds no slot more than its items, and registers none, whether it returns or throws. -/
def Tracker.Tame {σ : Type} {w : World σ} (T : Tracker w .token) : Prop :=
  ∀ past items port port' result, port.decode w items = (result, port') → ∀ slot,
    Kv.size (T.contents past port') slot ≤
        Kv.size (T.contents past port) slot + ((itemsOf slot items).flatMap (·.tokens)).length ∧
      (T.contents past port slot = none → T.contents past port' slot = none)

theorem Tracker.tame_history {σ : Type} (w : World σ) (counted : Bool) : (Tracker.history w .token counted).Tame := by
  intro past items port port' result decoded slot
  have after : (history w .token counted).contents past port' =
      Event.effect .token counted ((history w .token counted).contents past port) (.decode items result.isOk) := by
    simp only [contents, history, Port.log_decode decoded, ← List.append_assoc, replay_append]
  rw [after]
  simp only [Event.effect]
  split
  · simp only [Kv.size, Kv.feed_apply]
    cases (history w .token counted).contents past port slot with
    | none => simp
    | some held => simp [Slot.feed]
  · exact ⟨Nat.le_add_right _ _, id⟩

namespace Continuous

variable {σ : Type} {w : World σ} {config : SchedulerConfig} {past : List Event}
variable {s s' : Continuous σ} {q q' : RequestQueue}

theorem Served.blocks_eq {job job' : Job} {items : List BatchItem} (served : Served job job' items) :
    job'.blocks = job.blocks := by
  cases served <;> rfl

/-- The batch that is built next fits the tables of the jobs it is built for. -/
def Affords (config : SchedulerConfig) (T : Tracker w .token) (past : List Event) (s : Continuous σ) : Prop :=
  s.pc = .build → ∀ job ∈ s.active, ∀ job' items, Served job job' items →
    Kv.size (T.contents past s.port) job.state.seq + (items.flatMap (·.tokens)).length ≤
      job.blocks.nBlocks * config.blockSize

theorem seqs_buildBatch (nBatch : Nat) (config : SchedulerConfig) (active : List Job) :
    seqs (buildBatch nBatch config active).active = seqs active :=
  seqs_of_grows ((same_build nBatch config active).imp fun _ _ same => same.grows)

/-- The batch has been decoded, or the call threw. -/
theorem backed_decoded {T : Tracker w .token} (tame : T.Tame) (layout : Layout w config s) (pc : s.pc = .build)
    (affords : s.Affords config T past) (backed : Backed config.blockSize (T.contents past s.port) s.active)
    {port : Port σ} {result : Except String (List GenStep)}
    (decoded : s.port.decode w (buildBatch w.caps.nBatch config s.active).items = (result, port)) :
    Backed config.blockSize (T.contents past port) (buildBatch w.caps.nBatch config s.active).active := by
  have served := buildBatch_served w.caps.nBatch config layout.nodup
  have same := seqs_buildBatch w.caps.nBatch config s.active
  constructor
  · intro job' member
    obtain ⟨job, inside, serves⟩ := Lists.exists_of_forall₂_right served member
    rw [serves.seq_eq, Served.blocks_eq serves]
    exact ((tame past _ _ _ _ decoded _).1).trans (affords pc job inside job' _ serves)
  · intro slot outside
    rw [same] at outside
    exact (tame past _ _ _ _ decoded slot).2 (backed.nobody slot outside)

/-- Nothing but a batch makes a slot hold more, and for a batch there has to be room. -/
theorem Move.backed (move : Move w config s q s' q') {T : Tracker w .token} (tame : T.Tame)
    (layout : Layout w config s) (alive : ∀ message, s'.pc ≠ .crashed message)
    (off : config.prefixCaching = false) (donors : donorSlots config = []) {lostBlocks lostSlots : List Nat}
    (books : Books config s lostBlocks lostSlots) (affords : s.Affords config T past)
    (backed : Backed config.blockSize (T.contents past s.port) s.crew) :
    Backed config.blockSize (T.contents past s'.port) s'.crew := by
  -- moves outside of admission: the crew is the batch
  have batch : s.pc.inHand = [] → Backed config.blockSize (T.contents past s.port) s.active := by
    intro hand
    rwa [crew_of_none hand] at backed
  have hand : ∀ {job}, s.pc = .reserve job →
      Backed config.blockSize (T.contents past s.port) (s.active ++ job :: []) := by
    intro job pc
    simpa [crew, pc, Pc.inHand] using backed
  have replaced : ∀ {before after : List Job} {job job' : Job}, job.Grows job' →
      List.Forall₂ Job.Grows (before ++ job :: after) (before ++ job' :: after) := by
    intro before after job job' grows
    exact List.rel_append (List.forall₂_same.mpr fun job _ => .refl job)
      (.cons grows (List.forall₂_same.mpr fun job _ => .refl job))
  have larger : ∀ {table table' : BlockTable} {n : Nat} {a b : BlockAllocator},
      table.ensureCapacity n a = some (table', b) → table.nBlocks ≤ table'.nBlocks := by
    intro table table' n a b grown
    obtain ⟨_, size, _⟩ := BlockTable.ensureCapacity_shape grown
    rw [size]
    exact Nat.le_max_left _ _
  cases move with
  | makeCrash | adoptCrash => exact absurd rfl (alive _)
  | adopt pc fits same caching => rw [off] at caching; cases caching
  | leave pc | finish pc | acceptEnd pc | acceptStray pc | sweepKeep pc | sweepResolve pc
  | resolveEnd pc | resolveGone pc | resolveRoom pc | reclaimGone pc | reclaimEnd pc
  | preemptGone pc | preemptEnd pc | take pc =>
    rw [crew_of_none (by simp [pc, Pc.inHand])]
    exact batch (by simp [pc, Pc.inHand])
  | admitted pc =>
    rw [crew_of_none (by simp only; split <;> rfl)]
    exact batch (by simp [pc, Pc.inHand])
  | sweepLoop pc =>
    rw [crew_of_none rfl, T.contents_note _ _ (Event.ghost_stat _ _)]
    exact batch (by simp [pc, Pc.inHand])
  | giveUp pc short evicted | reclaimDonor pc here full evicted =>
    refine backed.goOn (List.forall₂_same.mpr fun job _ => .refl job) fun slot => .inl ?_
    exact books.ledger.contents_reclaim T evicted (by simp [donors])
  -- to the hand, and from it
  | @make request pending slot slots port pc next free begun =>
    have before := batch (by simp [pc, Pc.inHand])
    show Backed _ _ (s.active ++ [_])
    rw [T.contents_begin begun]
    refine before.enter ?_ ?_ ?_
    · rw [Scheduler.newJob_seq, Kv.size, Kv.begin_self]
      rfl
    · intro other apart
      rw [Scheduler.newJob_seq] at apart
      exact Kv.begin_other apart
    · rw [Scheduler.newJob_seq]
      exact layout.not_active_of_free (by rw [free]; exact List.mem_cons_self)
  | @reject job pc =>
    rw [crew_of_none rfl]
    simp only [Continuous.reject, T.contents_deliver, T.contents_release, T.contents_finish]
    have left := (hand pc).leave rfl (if_pos rfl) fun slot apart => Kv.release_other apart
    rwa [List.append_nil] at left
  | @defer job pc =>
    rw [crew_of_none (by simp only [Continuous.defer]; split <;> rfl)]
    simp only [Continuous.defer, T.contents_note _ _ (Event.ghost_stat _ _), T.contents_release]
    have left := (hand pc).leave rfl (if_pos rfl) fun slot apart => Kv.release_other apart
    rwa [List.append_nil] at left
  | @placeFailed job pc =>
    rw [crew_of_none rfl]
    simp only [Continuous.place, T.contents_note _ _ (Event.ghost_stat _ _)]
    exact hand pc
  | @place job table blocks cache pc fits =>
    rw [crew_of_none rfl]
    simp only [Continuous.place, T.contents_note _ _ (Event.ghost_stat _ _)]
    exact (hand pc).goOn (replaced ⟨rfl, larger fits.grown⟩) fun _ => .inl rfl
  -- the batch
  | buildNothing pc =>
    rw [crew_of_none rfl]
    refine (batch (by simp [pc, Pc.inHand])).goOn ?_ fun _ => .inl rfl
    exact (same_build _ _ _).imp fun _ _ same => same.grows
  | decode pc something returned =>
    rw [crew_of_none rfl]
    exact backed_decoded tame layout pc affords (batch (by simp [pc, Pc.inHand])) returned
  | @decodeFail message port pc something threw =>
    rw [crew_of_none (by simp [failAll, Pc.inHand])]
    have fed := backed_decoded tame layout pc affords (batch (by simp [pc, Pc.inHand])) threw
    exact fed.goOn ((same_failAll message { s with
      port := port
      active := (buildBatch w.caps.nBatch config s.active).active
      pc := .sweep 0 (some []) }).imp fun _ _ same => same.grows) fun _ => .inl rfl
  | acceptFail pc =>
    rw [crew_of_none (by simp [failAll, Pc.inHand])]
    refine (batch (by simp [pc, Pc.inHand])).goOn ?_ fun _ => .inl rfl
    exact (same_failAll _ _).imp fun _ _ same => same.grows
  -- accepting the sampled tokens
  | acceptFinish pc here accepted =>
    rw [crew_of_none rfl, T.contents_finish, T.contents_accept accepted]
    have before := batch (by simp [pc, Pc.inHand])
    rw [here] at before
    refine before.goOn (replaced ⟨?_, Nat.le_refl _⟩) fun _ => .inl rfl
    rw [(SequenceState.finish_same _ _).seq, (SequenceState.accept_same accepted).seq]
  | acceptStarve pc here accepted =>
    rw [crew_of_none rfl, T.contents_accept accepted]
    have before := batch (by simp [pc, Pc.inHand])
    rw [here] at before
    exact before.goOn (replaced ⟨(SequenceState.accept_same accepted).seq, Nat.le_refl _⟩) fun _ => .inl rfl
  | acceptGrow pc here accepted grown =>
    rw [crew_of_none rfl, T.contents_accept accepted]
    have before := batch (by simp [pc, Pc.inHand])
    rw [here] at before
    exact before.goOn (replaced ⟨(SequenceState.accept_same accepted).seq, larger grown⟩) fun _ => .inl rfl
  | acceptPublish pc here accepted grown published =>
    rw [crew_of_none rfl, T.contents_note _ _ (Event.ghost_index _ _ _ _), T.contents_accept accepted]
    have before := batch (by simp [pc, Pc.inHand])
    rw [here] at before
    subst published
    exact before.goOn (replaced ⟨(SequenceState.accept_same accepted).seq, larger grown⟩) fun _ => .inl rfl
  | resolveFail pc here large failed =>
    subst failed
    rw [crew_of_none rfl, T.contents_finish]
    have before := batch (by simp [pc, Pc.inHand])
    rw [here] at before
    refine before.goOn (replaced ⟨?_, Nat.le_refl _⟩) fun _ => .inl rfl
    rw [(SequenceState.finish_same _ _).seq]
    rfl
  | reclaimGrow pc here grown | preemptGrow pc here grown =>
    rw [crew_of_none rfl]
    have before := batch (by simp [pc, Pc.inHand])
    rw [here] at before
    exact before.goOn (replaced ⟨rfl, larger grown⟩) fun _ => .inl rfl
  -- out of the batch
  | @sweepRetire starved before job after pc here finished =>
    rw [crew_of_none (by simp [pc, Pc.inHand])]
    have active : job ∈ s.active := by rw [here]; simp
    refine (batch (by simp [pc, Pc.inHand])).leave here ?_ fun slot apart => ?_
    · simp only [Scheduler.retire, T.contents_deliver, T.contents_note _ _ (Event.ghost_stat _ _), T.contents_release]
      exact if_pos (SequenceState.finish_same _ _).seq.symm
    · exact books.ledger.contents_retire T (layout.lt_of_active active) apart (by simp [donors])
  | preemptEvict pc starving named full here =>
    rw [crew_of_none (by simp [pc, Pc.inHand])]
    simp only [T.contents_note _ _ (Event.ghost_stat _ _), T.contents_note _ _ (Event.ghost_preempt _ _ _ _),
      T.contents_release]
    exact (batch (by simp [pc, Pc.inHand])).leave here (if_pos rfl) fun slot apart => Kv.release_other apart

end Continuous

theorem SchedulerConfig.le_blocksOf {config : SchedulerConfig} (sized : 0 < config.blockSize) (n : Nat) :
    n ≤ config.blocksOf n * config.blockSize := by
  have up := Nat.lt_div_mul_add (a := n + config.blockSize - 1) sized
  rw [blocksOf]
  omega

/-- The pool that is made by default covers the context of the engine. -/
theorem SchedulerConfig.construct_kvBlocks {config : SchedulerConfig} {caps : EngineCaps}
    (derived : config.kvBlocks = 0) (positive : 0 < caps.nCtx)
    (small : caps.nCtx + (config.construct caps).blockSize ≤ 2 ^ 32) :
    (config.construct caps).kvBlocks = (config.construct caps).blocksOf caps.nCtx := by
  have sized := config.construct_blockSize_pos caps
  obtain ⟨size, blocks, _⟩ := config.construct_pool caps
  rw [blocksOf, blocks]
  rw [size] at small sized ⊢
  have clamped : (config.clampBatch caps).kvBlocks = 0 := by
    simp only [clampBatch]
    split <;> exact derived
  simp only [settle, clampDonors, sizePool, clamped, if_true, if_pos positive] at small sized ⊢
  rw [toUint32_of_lt (by omega)]

theorem donorSlots_construct_off {config : SchedulerConfig} (off : config.prefixCaching = false) (caps : EngineCaps) :
    donorSlots (config.construct caps) = [] := by
  have none : (config.construct caps).prefixDonors = 0 := by
    simp only [SchedulerConfig.construct, SchedulerConfig.settle, SchedulerConfig.clampDonors,
      SchedulerConfig.sizePool, SchedulerConfig.clampBatch]
    split <;> split <;> simp [off]
  rw [donorSlots, none]
  rfl

namespace Server

variable {σ : Type} {w : World σ} {config : SchedulerConfig} {capacity : Nat} {world : σ}
variable {past : List Event} {s : Server (Continuous σ)}

/-- What the slot of a running job holds when a batch is built, and the blocks the job has for it. -/
theorem room_run (engine : w.OnlyDecodeThrows) (off : config.prefixCaching = false) (counted : Bool)
    (run : (continuous w config capacity world).Run past s)
    (prompts : ∀ r ∈ s.accepted, ¬ r.Refused w → w.tokenize r.spec.prompt true ≠ [])
    (small : ∀ r ∈ s.accepted, ¬ r.Refused w → r.Countable w (config.construct w.caps)) (pc : s.thread.pc = .build)
    {job : Job} (active : job ∈ s.thread.active) (unfinished : job.state.finished = false) :
    ∃ tokens cells : List Token,
      (Tracker.history w .token counted).contents past s.thread.port job.state.seq =
        some { params := job.request.spec.sampling, cells } ∧
      Phase w (Sampler.any.choice w) job.request.spec job.state tokens cells none ∧
      job.request.spec.lead w = job.state.prompt ∧
      job.state.prompt.length + tokens.length ≤ job.blocks.nBlocks * (config.construct w.caps).blockSize := by
  have sized := config.construct_blockSize_pos w.caps
  have member : job ∈ s.thread.crew := List.mem_append_left _ active
  have mine := requested_run run job member
  have seat := exact_run (.history w .token counted) off (honest_any _) run job member
  obtain ⟨tokens, cells, running⟩ := seat.running unfinished
  have needed : job.needed = toUint32 (job.state.prompt.length + tokens.length) := running.needed_eq
  have passed : ¬ job.request.Refused w := running.unrefused
  obtain ⟨_, generates, held, phase⟩ := running
  have due : s.thread.pc.due job.state.seq = none := by rw [pc]; rfl
  simp only [Continuous.seat, due] at generates held phase
  have prompt : job.state.prompt = w.tokenize job.request.spec.prompt true := generates.prompt_eq
  refine ⟨tokens, cells, held, phase, by rw [RequestSpec.lead_eq (prompts _ mine passed), prompt], ?_⟩
  have spent : tokens.length ≤ job.request.spec.maxTokens.toNat := (generates.counted rfl).2
  have bound : job.request.length w + (config.construct w.caps).blockSize ≤ 2 ^ 32 := small _ mine passed
  rw [Request.length, ← prompt] at bound
  -- nobody is short of blocks when a batch is built
  obtain ⟨supplied, _, _⟩ := supplied_run engine off run prompts
  have table := (supplied.covered job active unfinished).tokens
  rw [pc, needed, (blocksFor_toUint32 (pool_run run).2 sized (by omega) _).1 (by omega)] at table
  simp only [Pc.unserved, Pc.serving, Pc.short, Option.toList_none, List.append_nil, List.not_mem_nil, if_false,
    Nat.add_zero] at table
  exact (SchedulerConfig.le_blocksOf sized _).trans (Nat.mul_le_mul_right _ table)

/-- When a batch is built, every job has the blocks for what it submits. -/
theorem affords_run (engine : w.OnlyDecodeThrows) (off : config.prefixCaching = false) (counted : Bool)
    (run : (continuous w config capacity world).Run past s)
    (prompts : ∀ r ∈ s.accepted, ¬ r.Refused w → w.tokenize r.spec.prompt true ≠ [])
    (small : ∀ r ∈ s.accepted, ¬ r.Refused w → r.Countable w (config.construct w.caps))
    (backed : Backed (config.construct w.caps).blockSize
      ((Tracker.history w .token counted).contents past s.thread.port) s.thread.crew) :
    s.thread.Affords (config.construct w.caps) (.history w .token counted) past := by
  intro pc job active job' items served
  cases served with
  | idle => exact backed.within job (List.mem_append_left _ active)
  | decode unfinished through =>
    obtain ⟨tokens, cells, held, phase, lead, room⟩ :=
      room_run engine off counted run prompts small pc active unfinished
    simp only [SequenceState.prefilling, SequenceState.prefillRemaining, gt_iff_lt, decide_eq_false_iff_not] at through
    cases phase with
    | prefilling more => omega
    | decoding _ _ last =>
      -- the token that is fed back is the last one accepted
      have length := congrArg List.length last
      rw [lead] at length
      simp only [List.length_append, List.length_singleton] at length
      simp only [Kv.size, held, Option.elim_some, SequenceState.decodeItem, List.flatMap_singleton,
        List.length_singleton]
      omega
  | @prefill take unfinished positive within =>
    obtain ⟨tokens, cells, held, phase, lead, room⟩ :=
      room_run engine off counted run prompts small pc active unfinished
    simp only [SequenceState.prefillRemaining] at within
    cases phase with
    | decoding all => omega
    | prefilling more _ holds =>
      have length := congrArg List.length holds
      simp only [List.length_take] at length
      simp only [Kv.size, held, Option.elim_some, SequenceState.takePrefillChunk, List.flatMap_singleton,
        List.length_take, List.length_drop, SequenceState.prefillRemaining]
      omega

theorem backed_run (engine : w.OnlyDecodeThrows) (off : config.prefixCaching = false) (counted : Bool)
    (run : (continuous w config capacity world).Run past s)
    (prompts : ∀ r ∈ s.accepted, ¬ r.Refused w → w.tokenize r.spec.prompt true ≠ [])
    (small : ∀ r ∈ s.accepted, ¬ r.Refused w → r.Countable w (config.construct w.caps)) :
    Backed (config.construct w.caps).blockSize
      ((Tracker.history w .token counted).contents past s.thread.port) s.thread.crew := by
  refine continuous_thread_invariant ?_ ?_ (accepting_each (accepting_each run.guarded_true prompts) small)
  · exact ⟨fun _ member => (by cases member), fun _ _ => rfl⟩
  · rintro past s thread queue run settled backed move ⟨⟨_, prompts⟩, small⟩
    have run := run.of_guarded
    have affords := affords_run engine off counted run prompts small backed
    have after := move.backed (Tracker.tame_history w counted) settled.layout (move.alive engine)
      (construct_prefixCaching off) (donorSlots_construct_off off w.caps)
      (books_spared engine (.inr off) (spares_run off run)) affords backed
    rw [Continuous.contents_quiet]
    exact after

/-- The blocks of the jobs are different blocks of the pool. -/
theorem tables_crew_le (engine : w.OnlyDecodeThrows) (off : config.prefixCaching = false)
    (run : (continuous w config capacity world).Run past s)
    (prompts : ∀ r ∈ s.accepted, ¬ r.Refused w → w.tokenize r.spec.prompt true ≠ []) :
    (tables s.thread.crew).length ≤ (config.construct w.caps).kvBlocks := by
  have layout := (settled_run run).layout
  have books := books_spared engine (.inr off) (spares_run off run)
  obtain ⟨_, nodup, _⟩ := supplied_run engine off run prompts
  -- a job in hand has no block yet
  have hand : tables s.thread.crew = tables s.thread.active := by
    cases pc : s.thread.pc with
    | reserve job =>
      obtain ⟨request, slot, _, rfl, _⟩ := layout.hand job pc
      simp [Continuous.crew, pc, Pc.inHand, tables]
    | _ => rw [Continuous.crew_of_none (by rw [pc]; rfl)]
  have inside : tables s.thread.active ⊆ List.range (config.construct w.caps).kvBlocks := by
    intro block member
    rw [List.mem_range, ← (pool_run run).1]
    apply BlockAllocator.refcount_lt_total
    rw [books.ledger.accounts.counts, List.count_append]
    have held := List.count_pos_iff.mpr member
    omega
  rw [hand]
  simpa using (List.subperm_of_subset nodup inside).length_le

theorem seqs_crew_nodup (run : (continuous w config capacity world).Run past s) : (seqs s.thread.crew).Nodup := by
  have layout := (settled_run run).layout
  cases pc : s.thread.pc with
  | reserve job =>
    obtain ⟨request, slot, slots, rfl, free⟩ := layout.hand job pc
    have outside : slot ∉ seqs s.thread.active := layout.not_active_of_free (by rw [free]; exact List.mem_cons_self)
    simp only [Continuous.crew, pc, Pc.inHand, seqs, List.map_append, List.map_cons, List.map_nil,
      Scheduler.newJob_seq]
    exact layout.nodup.append (List.nodup_singleton _) (by simpa [List.disjoint_singleton] using outside)
  | _ =>
    rw [Continuous.crew_of_none (by rw [pc]; rfl)]
    exact layout.nodup

end Server

/-- With prefix caching off and an engine that throws in `decode` at most, as long as every accepted request that
    the context check does not refuse has a token in its prompt, and prompt, budget and one block come to at most
    `2 ^ 32` tokens: the engine never holds more tokens than the pool has room for, whether or not a `decode` that
    threw is taken to have fed its tokens.  All slots together stay within the blocks of the pool, and within the
    context of the engine if the pool is sized for it by default and the context is a whole number of blocks, at
    least one, that with another block comes to at most `2 ^ 32` tokens. -/
theorem kv_within_pool {σ : Type} (w : World σ) (config : SchedulerConfig) (capacity : Nat) (world : σ)
    (engine : w.OnlyDecodeThrows) (off : config.prefixCaching = false) (past : List Event)
    (s : Server (Continuous σ)) (run : (Server.continuous w config capacity world).Run past s)
    (prompts : ∀ r ∈ s.accepted, ¬ r.Refused w → w.tokenize r.spec.prompt true ≠ [])
    (small : ∀ r ∈ s.accepted, ¬ r.Refused w → r.Countable w (config.construct w.caps)) (counted : Bool)
    (slots : Finset Nat) :
    ∑ slot ∈ slots, (replay .token counted past).size slot ≤
        (config.construct w.caps).kvBlocks * (config.construct w.caps).blockSize ∧
      (config.kvBlocks = 0 → 0 < w.caps.nCtx → w.caps.nCtx + (config.construct w.caps).blockSize ≤ 2 ^ 32 →
        (config.construct w.caps).blockSize ∣ w.caps.nCtx →
        ∑ slot ∈ slots, (replay .token counted past).size slot ≤ w.caps.nCtx) := by
  have backed := Server.backed_run engine off counted run prompts small
  rw [Tracker.contents, (Server.settled_run run).silent, List.append_nil] at backed
  have held := backed.total (Server.seqs_crew_nodup run) slots
  have within := held.trans (Nat.mul_le_mul_right _ (Server.tables_crew_le engine off run prompts))
  refine ⟨within, fun derived positive small divides => within.trans ?_⟩
  obtain ⟨n, whole⟩ := divides
  have sized := config.construct_blockSize_pos w.caps
  rw [SchedulerConfig.construct_kvBlocks derived positive small, SchedulerConfig.blocksOf, whole,
    Nat.add_sub_assoc sized, Nat.mul_add_div sized, Nat.div_eq_of_lt (by omega), Nat.add_zero, Nat.mul_comm]

/-- Two requests in a pool of five blocks of one token, of which one has just evicted the other: the engine
    holds no more than five tokens, in whichever slots one looks. -/
theorem kv_within_pool_letter :
    ∃ past s, (Server.continuous Script.letter.world (.pair 5) 4 fun _ => none).Run past s ∧
      .preempt 0 0 1 2 ∈ past ∧ (replay .token true past).size 1 ≠ 0 ∧
      ∀ slots, ∑ slot ∈ slots, (replay .token true past).size slot ≤ 5 := by
  obtain ⟨past, s, run, evicted, holds, prompts, small⟩ : ∃ past s,
      (Server.continuous Script.letter.world (.pair 5) 4 fun _ => none).Run past s ∧
      (.preempt 0 0 1 2 ∈ past ∧ (replay .token true past).size 1 ≠ 0 ∧
        (∀ r ∈ s.accepted, ¬ r.Refused Script.letter.world →
          Script.letter.world.tokenize r.spec.prompt true ≠ []) ∧
        ∀ r ∈ s.accepted, ¬ r.Refused Script.letter.world → r.Countable Script.letter.world
          ((SchedulerConfig.pair 5).construct Script.letter.world.caps)) :=
    Server.exists_run ([.push { id := 0, spec := { prompt := [1], maxTokens := 4 } },
      .push { id := 1, spec := { prompt := [1], maxTokens := 4 } }] ++ List.replicate 35 .run) rfl rfl
      (by decide +kernel)
  exact ⟨past, s, run, evicted, holds, fun slots => (kv_within_pool Script.letter.world (.pair 5) 4 (fun _ => none)
    Script.letter.world_onlyDecodeThrows rfl past s run prompts small true slots).1⟩

end MicroVllm
