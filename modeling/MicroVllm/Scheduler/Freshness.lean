import MicroVllm.Scheduler.Cells
import MicroVllm.Scheduler.Entries

/-! # No stale entries

While the loop admits, every cache entry still stands for KV that is there: a live entry
for the prompt of a running job, a retained one for a donor slot of its own, and all of
them for blocks that are held.
-/

namespace MicroVllm

/-- A position that holds its token. -/
def HoldsToken (t : Token) (cell : Token) : Prop := cell = t

theorem token_tracks : CellKind.token.Tracks HoldsToken where
  fed _ := rfl
  copied _ _ same := same

theorem Slot.HoldsEntry.take_eq {entry : Entry} {slot : Slot Token}
    (holds : slot.HoldsEntry HoldsToken entry) (within : entry.nTokens ≤ entry.prompt.length) :
    slot.cells.take entry.nTokens = entry.prompt.take entry.nTokens := by
  have covers := holds.covers
  apply List.ext_getElem
  · rw [List.length_take, List.length_take]
    omega
  · intro i inCells inPrompt
    have inside : i < slot.cells.length := by
      rw [List.length_take] at inCells
      omega
    rw [List.getElem_take]
    exact holds.goes i _ _ (List.getElem?_eq_getElem inPrompt) (List.getElem?_eq_getElem inside)

namespace Continuous

variable {σ : Type} {w : World σ} {config : SchedulerConfig}

/-- No sampled job is short of a step. -/
def Answered (s : Continuous σ) : Prop :=
  ∀ sampling steps grewShort, s.pc = .accept sampling steps grewShort →
    sampling.length ≤ steps.length

theorem Answered.move {s s' : Continuous σ} {q q' : RequestQueue} (answered : s.Answered)
    (answers : w.Answers) (move : Move w config s q s' q') : s'.Answered := by
  intro sampling steps grewShort accepting
  cases move with
  | decode pc something returned =>
    cases accepting
    rw [buildBatch_sampling, List.length_map]
    have result : (w.decode (buildBatch w.caps.nBatch config s.active).items s.port.world).1 = .ok steps :=
      congrArg Prod.fst returned
    exact answers _ s.port.world _ _ (Prod.ext result rfl)
  | acceptStray pc | acceptFinish pc | acceptStarve pc | acceptGrow pc | acceptPublish pc =>
    cases accepting
    have before := answered _ _ _ pc
    simpa using before
  | take pc | giveUp pc | sweepRetire pc | reclaimDonor pc | preemptEvict pc => simp [pc] at accepting
  | admitted =>
    simp only at accepting
    split at accepting <;> cases accepting
  | defer =>
    simp only [Continuous.defer] at accepting
    split at accepting <;> cases accepting
  | _ => cases accepting

/-- With an engine that never throws and answers every sampling item, the try block is never
    left. -/
theorem Answered.tryFails {s : Continuous σ} (answered : s.Answered) (engine : w.NeverThrows) :
    s.tryFails w config = false := by
  simp only [Continuous.tryFails]
  split
  · simp [Port.decode, engine.decodes]
  · rename_i pc
    have short := answered _ _ _ pc
    simp at short
  · rfl

/-- No entry is stale, with the KV contents `kv`. -/
structure EntriesFresh (config : SchedulerConfig) (kv : Kv Token) (s : Continuous σ) : Prop where
  live : ∀ p ∈ s.prefixCache.pairs, p.2.retained = false →
    ∃ job ∈ s.active, job.state.finished = false ∧ job.state.seq = p.2.seq ∧
      p.2.nTokens ≤ job.state.prompt.length ∧
      PrefixCache.hashPrefix job.state.prompt p.2.nTokens = p.1 ∧
      ∃ slot, kv p.2.seq = some slot ∧
        slot.cells.take p.2.nTokens = job.state.prompt.take p.2.nTokens
  donors : ∀ p ∈ s.prefixCache.pairs, p.2.retained = true →
    p.2.seq ∈ donorSlots config ∧ p.2.seq ∉ s.prefixCache.freeDonorSlots ∧
      (∀ p' ∈ s.prefixCache.pairs, p'.2.seq = p.2.seq → p' = p) ∧
      ∃ slot, kv p.2.seq = some slot ∧ p.2.nTokens ≤ slot.cells.length ∧
        PrefixCache.hashPrefix slot.cells p.2.nTokens = p.1

/-- Every block an entry lists is held. -/
def EntriesHeld (blocks : BlockAllocator) (s : Continuous σ) : Prop :=
  ∀ p ∈ s.prefixCache.pairs, ∀ b ∈ p.2.blocks, 1 ≤ blocks.refcount b

section

variable {s : Continuous σ} {lostBlocks lostSlots : List Nat}

theorem Books.entriesHeld (books : Books config s lostBlocks lostSlots) : s.EntriesHeld s.blocks := by
  intro p member b inside
  rw [books.ledger.accounts.counts b, ← List.append_assoc]
  exact List.one_le_count_iff.mpr (List.mem_append_left _ (books.entry_held member inside))

/-- The blocks a job gets at admission leave those of the entries held. -/
theorem Books.entriesHeld_fits (books : Books config s lostBlocks lostSlots) {job : Job}
    {table : BlockTable} {blocks : BlockAllocator} (fits : s.Fits job table blocks)
    (empty : job.blocks.blocks = []) : s.EntriesHeld blocks := by
  intro p member b inside
  rw [(books.fits fits empty).1.accounts.counts b, List.append_assoc, ← List.append_assoc (tables _)]
  refine List.one_le_count_iff.mpr (List.mem_append_right _ (List.mem_append_left _ ?_))
  exact books.entry_held member inside

theorem Books.entriesFresh {past : List Event} {accepted : List Request}
    (books : Books config s lostBlocks lostSlots) (layout : Layout w config s) (orderly : s.Orderly)
    (admitting : s.pc.admitting = true)
    (filed : ∀ p ∈ s.prefixCache.pairs, Filed w config accepted p)
    (cells : s.Cells HoldsToken config (.history w .token false) past) :
    s.EntriesFresh config (replay .token false (past ++ s.port.log)) where
  live p member live := by
    obtain ⟨job, active, backs⟩ := books.live p member live
    obtain ⟨slot, found, holds⟩ := cells.entries p member
    have within := (filed p member).within
    have agree := holds.take_eq within
    have key := (filed p member).key
    rw [← backs.prompt] at within agree key
    refine ⟨job, active, ?_, backs.seq, within, key.symm, slot, found, agree⟩
    -- a finished job has no blocks left for an entry to start with
    cases finished : job.state.finished with
    | false => rfl
    | true =>
      have none := orderly.failed admitting job active finished
      have sub := backs.blocks
      rw [none] at sub
      exact absurd (List.prefix_nil.mp sub) backs.some
  donors p member kept := by
    obtain ⟨slot, found, holds⟩ := cells.entries p member
    have donor := books.ledger.donor_of_retained member kept
    have nodup := books.ledger.donors.nodup_iff.mpr (donorSlots_nodup config)
    refine ⟨donor, ?_, ?_, slot, found, holds.covers, ?_⟩
    · intro free
      refine (List.nodup_append.mp nodup).2.2 _ free p.2.seq (List.mem_append_left _ ?_) rfl
      exact List.mem_flatMap.mpr ⟨p, member, by simp [PrefixCache.slotBy, kept]⟩
    · intro p' other same
      cases kept' : p'.2.retained with
      | true => exact books.ledger.retained_inj other member kept' kept same
      | false => exact absurd (same ▸ donor) (books.live_batch layout p' other kept')
    · have key := (filed p member).key
      have agree := holds.take_eq (filed p member).within
      rw [key, PrefixCache.hashPrefix, PrefixCache.hashPrefix, agree]

end

end Continuous

namespace Server

variable {σ : Type} {w : World σ} {config : SchedulerConfig} {capacity : Nat} {world : σ}
variable {past : List Event} {s : Server (Continuous σ)}

/-- A prompt that hits an entry was published or retained agrees with it. -/
theorem agrees_run (run : (continuous w config capacity world).Run past s)
    (distinct : Collisionless w (config.construct w.caps) s.accepted) : ∀ job ∈ s.thread.crew, ∀ hit,
      (PrefixCache.hashPrefix job.state.prompt hit.nTokens, hit) ∈ s.thread.prefixCache.pairs →
      hit.nTokens ≤ job.state.prompt.length →
      hit.prompt.take hit.nTokens = job.state.prompt.take hit.nTokens := by
  intro job member hit found within
  have layout := (settled_run run).layout
  have prompt : job.state.prompt = w.tokenize job.request.spec.prompt true := by
    rcases List.mem_append.mp member with active | hand
    · exact (layout.origin job active).prompt
    · cases pc : s.thread.pc with
      | reserve inHand =>
        rw [pc] at hand
        cases List.mem_singleton.mp hand
        obtain ⟨request, slot, slots, rfl, _⟩ := layout.hand _ pc
        exact Scheduler.newJob_prompt w request slot
      | _ => simp [pc, Pc.inHand] at hand
  exact ((filed_run run).1 _ found).agrees distinct (requested_run run job member) prompt within

theorem answered_run (answers : w.Answers) (run : (continuous w config capacity world).Run past s) :
    s.thread.Answered := by
  refine continuous_thread_invariant ?_ ?_ run.guarded_true
  · exact fun _ _ _ accepting => nomatch accepting
  · intro past s thread queue _ _ answered move _
    have after : thread.Answered := answered.move answers move
    exact after

/-- With an engine that answers and never throws, the slots hold the tokens of the prompts
    they stand for. -/
theorem tokens_run (T : Tracker w .token) (kept : T.keeps) (engine : w.NeverThrows) (answers : w.Answers)
    (apart : config.Apart) (run : (continuous w config capacity world).Run past s)
    (distinct : Collisionless w (config.construct w.caps) s.accepted) :
    s.thread.Cells HoldsToken (config.construct w.caps) T past := by
  refine continuous_thread_invariant ?_ ?_ (accepting_run (fun fewer all => all.mono fewer) run.guarded_true distinct)
  · constructor
    · simp [Continuous.crew, Continuous.start, Pc.inHand]
    · simp [Continuous.start, Scheduler.make, PrefixCache.configureDonors, PrefixCache.pairs]
  · rintro past s thread queue run settled earlier move ⟨_, distinct⟩
    have answered := answered_run answers run.of_guarded
    have orderly := orderly_run run.of_guarded
    obtain ⟨lostBlocks, lostSlots, books⟩ := books_run apart run.of_guarded
    have agrees := agrees_run run.of_guarded distinct
    have clean : s.thread.FailsClean w (config.construct w.caps) := by
      intro fails
      simp [answered.tryFails engine] at fails
    refine Continuous.Cells.quiet ?_
    refine earlier.move settled.layout orderly books token_tracks kept clean ?_ move
    intro job member hit found within i t c inside token theirs
    have agree := agrees job member hit found within
    refine theirs t ?_
    have same : (hit.prompt.take hit.nTokens)[i]? = (job.state.prompt.take hit.nTokens)[i]? := by
      rw [agree]
    rw [List.getElem?_take, List.getElem?_take, if_pos inside, if_pos inside, token] at same
    exact same

end Server

/-- With an engine that never throws and answers for every sampled item, and prompts of which none
    collides with the whole blocks of another, whenever the loop decides about a job no cache entry is
    stale: not before the job is given blocks, and not in the pool it is given them from when
    `find_longest` is called. -/
theorem entries_never_stale {σ : Type} (w : World σ) (config : SchedulerConfig) (capacity : Nat)
    (world : σ) (engine : w.NeverThrows) (answers : w.Answers) (batch : 1 ≤ config.maxBatchSize)
    (past : List Event) (s : Server (Continuous σ))
    (run : (Server.continuous w config capacity world).Run past s)
    (distinct : Collisionless w (config.construct w.caps) s.accepted) (job : Job) (pc : s.thread.pc = .reserve job) :
    s.thread.EntriesFresh (config.construct w.caps) (replay .token false past) ∧
      s.thread.EntriesHeld s.thread.blocks ∧
      ∀ table blocks, s.thread.Fits job table blocks → s.thread.EntriesHeld blocks := by
  obtain ⟨lostBlocks, lostSlots, books⟩ := Server.books_run (.inl batch) run
  have settled := Server.settled_run run
  have fresh := books.entriesFresh settled.layout (Server.orderly_run run) (by rw [pc]; rfl)
    (Server.filed_run run).1 (Server.tokens_run (.history w .token false) rfl engine answers (.inl batch) run distinct)
  rw [settled.silent, List.append_nil] at fresh
  refine ⟨fresh, books.entriesHeld, fun table blocks fits => books.entriesHeld_fits fits ?_⟩
  obtain ⟨request, slot, slots, rfl, _⟩ := settled.layout.hand job pc
  rfl

/-- The third request is in hand while the first has left a donor and the second runs with a
    live entry. -/
theorem entries_never_stale_letter :
    Script.letter.world.NeverThrows ∧ Script.letter.world.Answers ∧
      ∃ past s job, (Server.continuous Script.letter.world
          { SchedulerConfig.single 2 with maxBatchSize := 2 } 4 fun _ => none).Run past s ∧
        Collisionless Script.letter.world ({ SchedulerConfig.single 2 with maxBatchSize := 2 }.construct
          Script.letter.caps) s.accepted ∧ s.thread.pc = .reserve job ∧
        s.thread.prefixCache.pairs.length = 2 ∧ s.thread.prefixCache.donors.length = 1 ∧
        s.thread.EntriesFresh ({ SchedulerConfig.single 2 with maxBatchSize := 2 }.construct
          Script.letter.caps) (replay .token false past) := by
  obtain ⟨past, s, run, distinct, hand, entries, donors⟩ : ∃ past s,
      (Server.continuous Script.letter.world
        { SchedulerConfig.single 2 with maxBatchSize := 2 } 4 fun _ => none).Run past s ∧
      (Collisionless Script.letter.world ({ SchedulerConfig.single 2 with maxBatchSize := 2 }.construct
          Script.letter.caps) s.accepted ∧ s.thread.pc.inHand ≠ [] ∧
        s.thread.prefixCache.pairs.length = 2 ∧ s.thread.prefixCache.donors.length = 1) :=
    Server.exists_run ([.push { id := 0, spec := { prompt := [1, 2], maxTokens := 1 } },
      .push { id := 1, spec := { prompt := [3, 4, 5], maxTokens := 9 } },
      .push { id := 2, spec := { prompt := [1, 2, 7], maxTokens := 2 } }] ++
      List.replicate 34 .run) rfl rfl (by decide +kernel)
  obtain ⟨job, pc⟩ : ∃ job, s.thread.pc = .reserve job := by
    cases pc : s.thread.pc with
    | reserve job => exact ⟨job, rfl⟩
    | _ => simp [pc, Pc.inHand] at hand
  exact ⟨Script.letter_neverThrows, Script.letter.world_answers, past, s, job, run, distinct, pc, entries,
    donors, (entries_never_stale _ _ _ _ Script.letter_neverThrows Script.letter.world_answers (by decide)
      past s run distinct job pc).1⟩

end MicroVllm
