import MicroVllm.Scheduler.Histories
import MicroVllm.Scheduler.Seats

/-! # What the slots hold of the prompts

A slot holds its prompt from the first position on, as far as the job counts as prefilled
or further, and the slot of an entry holds all the entry covers.  The relation between a
token and what its position records is a parameter: one instance says that every position
was copied or fed in a decode that returned, another that it holds the token itself.
-/

namespace MicroVllm

open Scheduler (wholeTokens)

/-! ## Cells that go with a prompt -/

section Matching

variable {α : Type} {kind : CellKind α} {R : Token → α → Prop}

/-- Every position that the prompt and the slot both have records something that goes with
    the token. -/
def Matches (R : Token → α → Prop) (prompt : List Token) (cells : List α) : Prop :=
  ∀ (i : Nat) t c, prompt[i]? = some t → cells[i]? = some c → R t c

/-- What is fed goes with its token, and what is copied still does. -/
structure CellKind.Tracks (kind : CellKind α) (R : Token → α → Prop) : Prop where
  fed : ∀ t, R t (kind.fed t)
  copied : ∀ t c, R t c → R t (kind.copied c)

theorem Matches.nil (prompt : List Token) : Matches R prompt [] := by
  intro i t c _ cell
  simp at cell

/-- The next tokens of the prompt are fed. -/
theorem Matches.chunk {prompt : List Token} {cells : List α} (goes : Matches R prompt cells)
    (tracks : kind.Tracks R) (n : Nat) :
    Matches R prompt (cells ++ ((prompt.drop cells.length).take n).map kind.fed) := by
  intro i t c token cell
  by_cases old : i < cells.length
  · rw [List.getElem?_append_left old] at cell
    exact goes i t c token cell
  · rw [List.getElem?_append_right (by omega), List.getElem?_map, Option.map_eq_some_iff] at cell
    obtain ⟨t', found, rfl⟩ := cell
    rw [List.getElem?_take] at found
    split at found
    · rw [List.getElem?_drop, Nat.add_sub_cancel' (by omega), token, Option.some.injEq] at found
      exact found ▸ tracks.fed t
    · cases found

/-- The whole prompt is there, and anything is fed. -/
theorem Matches.beyond {prompt : List Token} {cells : List α} (goes : Matches R prompt cells)
    (through : prompt.length ≤ cells.length) (more : List α) : Matches R prompt (cells ++ more) := by
  intro i t c token cell
  have inside := (List.getElem?_eq_some_iff.mp token).1
  rw [List.getElem?_append_left (by omega)] at cell
  exact goes i t c token cell

theorem Matches.take {prompt : List Token} {cells : List α} (goes : Matches R prompt cells) (n : Nat) :
    Matches R (prompt.take n) cells := by
  intro i t c token cell
  rw [List.getElem?_take] at token
  split at token
  · exact goes i t c token cell
  · cases token

theorem Matches.copy {prompt : List Token} {cells : List α} (goes : Matches R prompt cells)
    (tracks : kind.Tracks R) (n : Nat) : Matches R prompt ((cells.take n).map kind.copied) := by
  intro i t c token cell
  rw [List.getElem?_map, Option.map_eq_some_iff] at cell
  obtain ⟨c', found, rfl⟩ := cell
  rw [List.getElem?_take] at found
  split at found
  · exact tracks.copied t c' (goes i t c' token found)
  · cases found

end Matching

/-! ## Seats and entries -/

section Holding

variable {σ α : Type} {w : World σ} {config : SchedulerConfig} {kind : CellKind α}
variable {R : Token → α → Prop} {A : Slot α → GenStep → Prop} {keeps : Prop}
variable {s : Continuous σ} {kv : Kv α}

/-- A slot holds its job's prompt: as far as the job counts as prefilled, or all of it, and what was
    copied; and the whole blocks of it once the job is done and has blocks to keep. -/
structure Slot.HoldsFor (R : Token → α → Prop) (config : SchedulerConfig) (job : Job) (slot : Slot α) :
    Prop where
  goes : Matches R job.state.prompt slot.cells
  ahead : job.state.finished = false →
    max job.state.prefilled job.blocks.sharedPrefixTokens ≤ slot.cells.length
  level : job.state.finished = false →
    slot.cells.length = job.state.prefilled ∨ job.state.prompt.length ≤ slot.cells.length
  done : job.state.finished = true → 0 < job.blocks.nBlocks →
    wholeTokens config job.state.prompt ≤ slot.cells.length

def Seat.Holds (R : Token → α → Prop) (config : SchedulerConfig) (seat : Seat α) : Prop :=
  ∃ slot, seat.held = some slot ∧ slot.HoldsFor R config seat.job

/-- A slot holds all that an entry covers. -/
structure Slot.HoldsEntry (R : Token → α → Prop) (entry : Entry) (slot : Slot α) : Prop where
  goes : Matches R (entry.prompt.take entry.nTokens) slot.cells
  covers : entry.nTokens ≤ slot.cells.length

theorem Slot.HoldsFor.of_through {job : Job} {slot : Slot α} (holds : slot.HoldsFor R config job)
    (unfinished : job.state.finished = false) (through : job.state.prefilling = false) :
    job.state.prompt.length ≤ slot.cells.length := by
  have ahead := holds.ahead unfinished
  simp only [SequenceState.prefilling, SequenceState.prefillRemaining, gt_iff_lt,
    decide_eq_false_iff_not] at through
  omega

/-- A batch is decoded. -/
theorem Slot.HoldsFor.serve {job job' : Job} {items : List BatchItem} {slot : Slot α}
    (tracks : kind.Tracks R) (holds : slot.HoldsFor R config job) (served : Served job job' items) :
    (slot.feed kind items).HoldsFor R config job' := by
  cases served with
  | idle =>
    have same : slot.feed kind [] = slot := by simp [Slot.feed]
    rw [same]
    exact holds
  | decode unfinished through =>
    -- the token that is fed goes behind the whole prompt
    have all := holds.of_through unfinished through
    have ahead := holds.ahead unfinished
    refine ⟨?_, fun _ => ?_, fun _ => .inr ?_, ?_⟩
    · exact holds.goes.beyond all _
    · simp only [Slot.feed, List.length_append]
      omega
    · simp only [Slot.feed, List.length_append]
      omega
    · simp [unfinished]
  | @prefill take unfinished positive within =>
    have ahead := holds.ahead unfinished
    have chunk : (slot.feed kind [(job.state.takePrefillChunk take).1]).cells = slot.cells ++
        ((job.state.prompt.drop job.state.prefilled).take take).map kind.fed := by
      simp [Slot.feed, SequenceState.takePrefillChunk, Nat.min_eq_left within]
    have submitted : (job.state.takePrefillChunk take).2.prefilled = job.state.prefilled + take := by
      simp [SequenceState.takePrefillChunk, Nat.min_eq_left within]
    simp only [SequenceState.prefillRemaining] at within
    have fed : ((job.state.prompt.drop job.state.prefilled).take take).length = take := by
      rw [List.length_take, List.length_drop]
      omega
    refine ⟨?_, fun _ => ?_, fun _ => ?_, ?_⟩
    · rw [chunk]
      -- a slot that has inherited more than the state has adopted is past the prompt already
      rcases holds.level unfinished with level | all
      · rw [← level]
        exact holds.goes.chunk tracks take
      · exact holds.goes.beyond all _
    · simp only [chunk, submitted, List.length_append, List.length_map, fed]
      omega
    · rw [chunk, submitted, List.length_append, List.length_map, fed]
      rcases holds.level unfinished with level | all
      · exact .inl (by omega)
      · refine .inr (Nat.le_trans all ?_)
        omega
    · simp [SequenceState.takePrefillChunk, unfinished]

/-- A job stops with at least the whole blocks of its prompt in the slot. -/
theorem Slot.HoldsFor.stopped {job job' : Job} {slot : Slot α} (holds : slot.HoldsFor R config job)
    (prompt : job'.state.prompt = job.state.prompt) (finished : job'.state.finished = true)
    (whole : wholeTokens config job.state.prompt ≤ slot.cells.length) :
    slot.HoldsFor R config job' where
  goes := by rw [prompt]; exact holds.goes
  ahead := by simp [finished]
  level := by simp [finished]
  done _ _ := by rw [prompt]; exact whole

/-- What was copied for an entry goes with a prompt that hits it. -/
def Agrees (R : Token → α → Prop) (kind : CellKind α) (prompt : List Token) (hit : Entry) : Prop :=
  ∀ (i : Nat) t c, i < hit.nTokens → prompt[i]? = some t →
    (∀ t', hit.prompt[i]? = some t' → R t' c) → R t (kind.copied c)

/-- A prefix is adopted from a slot that holds the entry. -/
theorem Slot.HoldsFor.adopt {job : Job} {table : BlockTable} {hit : Entry} {slot source : Slot α}
    (unfinished : job.state.finished = false) (within : hit.nTokens ≤ job.state.prompt.length)
    (positive : 0 < hit.nTokens) (agrees : Agrees R kind job.state.prompt hit)
    (entry : source.HoldsEntry R hit) :
    (Slot.inherit kind (some source) hit.nTokens slot).HoldsFor R config
      (Continuous.inherit job table hit) := by
  have length : ((source.cells.take hit.nTokens).map kind.copied).length = hit.nTokens := by
    rw [List.length_map, List.length_take]
    have covers := entry.covers
    omega
  have nonempty : job.state.prompt ≠ [] := by
    intro empty
    rw [empty, List.length_nil] at within
    omega
  have prefilled : (Continuous.inherit job table hit).state.prefilled =
      min hit.nTokens (job.state.prompt.length - 1) := by
    simp [Continuous.inherit, SequenceState.adoptCachedPrefix, nonempty]
  refine ⟨?_, fun _ => ?_, fun _ => ?_, ?_⟩
  · intro i t c token cell
    simp only [Slot.inherit, List.getElem?_map, Option.map_eq_some_iff] at cell
    obtain ⟨c', found, rfl⟩ := cell
    rw [List.getElem?_take] at found
    split at found
    · rename_i inside
      refine agrees i t c' inside token fun t' theirs => entry.goes i t' c' ?_ found
      rw [List.getElem?_take, if_pos inside]
      exact theirs
    · cases found
  · rw [prefilled]
    simp only [Slot.inherit, Continuous.inherit, length]
    omega
  · rw [prefilled]
    simp only [Slot.inherit, length]
    -- only an entry for the whole prompt leaves the job short of what the slot holds
    by_cases whole : hit.nTokens = job.state.prompt.length
    · refine .inr ?_
      rw [whole]
      exact Nat.le_refl _
    · exact .inl (by omega)
  · simp [Continuous.inherit, SequenceState.adoptCachedPrefix, unfinished]

/-- When the next turn leaves the try block, the whole blocks of the prompt of every unfinished
    job have been counted as prefilled in an earlier turn, or copied when it was admitted. -/
def Continuous.FailsClean (w : World σ) (config : SchedulerConfig) (s : Continuous σ) : Prop :=
  s.tryFails w config = true → ∀ job ∈ s.active, job.state.finished = false →
    wholeTokens config job.state.prompt ≤ max job.state.prefilled job.blocks.sharedPrefixTokens

instance (w : World σ) (config : SchedulerConfig) (s : Continuous σ) :
    Decidable (s.FailsClean w config) :=
  inferInstanceAs (Decidable (s.tryFails w config = true → ∀ job ∈ s.active, job.state.finished = false →
    wholeTokens config job.state.prompt ≤ max job.state.prefilled job.blocks.sharedPrefixTokens))

/-- The exception path is over a job that has been served, or not. -/
theorem Slot.HoldsFor.fail {job job' : Job} {slot : Slot α} {message : String}
    (holds : slot.HoldsFor R config job) (sameFinished : job'.state.finished = job.state.finished)
    (prompt : job'.state.prompt = job.state.prompt) (blocks : job'.blocks = job.blocks)
    (clean : job.state.finished = false →
      wholeTokens config job.state.prompt ≤ max job.state.prefilled job.blocks.sharedPrefixTokens) :
    slot.HoldsFor R config (job'.failed message) := by
  cases finished : job.state.finished with
  | true =>
    have kept : job'.failed message = job' := by simp [Job.failed, sameFinished, finished]
    rw [kept]
    refine ⟨by rw [prompt]; exact holds.goes, ?_, ?_, ?_⟩
    · simp [sameFinished, finished]
    · simp [sameFinished, finished]
    · intro _ some
      rw [prompt]
      exact holds.done finished (by rw [← blocks]; exact some)
  | false =>
    have failed : job'.failed message = { job' with state := job'.state.fail message } := by
      simp [Job.failed, sameFinished, finished]
    rw [failed]
    exact holds.stopped prompt rfl (Nat.le_trans (clean finished) (holds.ahead finished))

/-- Every stage keeps what a slot holds of its prompt. -/
theorem Seat.Holds.stage {seat seat' : Seat α} (holds : seat.Holds R config) (tracks : kind.Tracks R)
    (kept : keeps) (clean : s.FailsClean w config)
    (agrees : ∀ hit, (PrefixCache.hashPrefix seat.job.state.prompt hit.nTokens, hit) ∈
        s.prefixCache.pairs →
      hit.nTokens ≤ seat.job.state.prompt.length → Agrees R kind seat.job.state.prompt hit)
    (entries : ∀ p ∈ s.prefixCache.pairs, ∃ slot, kv p.2.seq = some slot ∧ slot.HoldsEntry R p.2)
    (stage : Stage w config kind A keeps s kv seat seat') : seat'.Holds R config := by
  obtain ⟨slot, held, holds⟩ := holds
  cases stage with
  | stay => exact ⟨slot, held, holds⟩
  | grow unfinished shared =>
    refine ⟨slot, held, holds.goes, by simpa only [shared] using holds.ahead, holds.level, ?_⟩
    simp [unfinished]
  | @adopt request batchSlot table _ hit pc caching enters found positive within =>
    -- what is copied is what the entry's slot holds
    obtain ⟨source, origin, entry⟩ := entries _ found
    simp only at held
    rw [Scheduler.newJob_prompt] at agrees
    refine ⟨_, by rw [held, origin]; rfl, ?_⟩
    exact .adopt enters.1 (by rw [Scheduler.newJob_prompt]; exact within) positive
      (by rw [Scheduler.newJob_prompt]; exact agrees hit found within) entry
  | serve pc member served asked answer =>
    simp only at held
    exact ⟨_, by rw [held]; rfl, holds.serve tracks served⟩
  | spoil fails member served keep =>
    obtain ⟨sameFinished, prompt, blocks⟩ := served.frame
    exact ⟨slot, by rw [keep kept]; exact held,
      holds.fail sameFinished prompt blocks (clean fails _ member)⟩
  | drop fails member => exact ⟨slot, held, holds.fail rfl rfl rfl (clean fails _ member)⟩
  | goOn through accepts shared =>
    have same := accepts.same
    have all := holds.of_through accepts.unfinished_of_goesOn.1 through
    have ahead := holds.ahead accepts.unfinished_of_goesOn.1
    refine ⟨slot, held, by rw [same.prompt]; exact holds.goes, fun _ => ?_, fun _ => .inr ?_, ?_⟩
    · simp only [same.prefilled, shared]
      exact ahead
    · rw [same.prompt]
      exact all
    · simp [accepts.unfinished_of_goesOn.2]
  | @stop job step state _ port through accepts =>
    have same := accepts.same.trans (SequenceState.finish_same (w := w) state port)
    have ended := SequenceState.finish_finished (w := w) accepts.finished_of_stops port
    refine ⟨slot, held, ?_⟩
    -- a job that had finished keeps what it is known to hold; any other is through its prompt
    cases finished : job.state.finished with
    | true =>
      refine ⟨by rw [same.prompt]; exact holds.goes, by simp [ended], by simp [ended], fun _ some => ?_⟩
      rw [same.prompt]
      exact holds.done finished some
    | false =>
      have all := holds.of_through finished through
      exact holds.stopped same.prompt ended
        (Nat.le_trans (Scheduler.wholeTokens_le config job.state.prompt) all)
  | @overflow job _ message port through unfinished =>
    have same := (SequenceState.fail_same job.state message .contextOverflow).trans
      (SequenceState.finish_same (w := w) _ port)
    have all := holds.of_through unfinished through
    refine ⟨slot, held, holds.stopped same.prompt (SequenceState.finish_finished rfl _) ?_⟩
    exact Nat.le_trans (Scheduler.wholeTokens_le config job.state.prompt) all

/-- A job that has just been built, and a registered slot. -/
theorem Seat.Holds.enter (request : Request) (slot : Nat) (params : SamplingParams) :
    Seat.Holds R config ⟨Scheduler.newJob w request slot, none, some { params, cells := [] }⟩ := by
  refine ⟨_, rfl, Matches.nil _, fun _ => ?_, fun _ => .inl ?_, ?_⟩
  · simp
  · simp
  · simp [BlockTable.nBlocks]

end Holding

/-! ## The whole thread -/

namespace Continuous

variable {σ α : Type} {w : World σ} {config : SchedulerConfig} {kind : CellKind α}
variable {R : Token → α → Prop} {T : Tracker w kind} {past : List Event} {s s' : Continuous σ}

structure Cells (R : Token → α → Prop) (config : SchedulerConfig) (T : Tracker w kind)
    (past : List Event) (s : Continuous σ) : Prop where
  jobs : ∀ job ∈ s.crew, (s.seat T past job).Holds R config
  entries : ∀ p ∈ s.prefixCache.pairs, ∃ slot,
    T.contents past s.port p.2.seq = some slot ∧ slot.HoldsEntry R p.2

theorem Cells.quiet (cells : s.Cells R config T past) :
    s.quiet.Cells R config T (past ++ s.port.log) where
  jobs job member := by
    rw [seat_quiet]
    exact cells.jobs job member
  entries p member := by
    rw [contents_quiet]
    exact cells.entries p member

/-- The job an entry is published for holds all the entry covers. -/
theorem Cells.published {job : Job} {slot : Slot α} (origin : job.Origin w)
    (holds : slot.HoldsFor R config job) (offers : Offers config job config.blockSize) :
    slot.HoldsEntry R (job.offer config.blockSize) := by
  have covered : (job.offer config.blockSize).nTokens = wholeTokens config job.state.prompt :=
    offer_nTokens (Nat.lt_trans origin.prompt_lt (by decide))
  refine ⟨holds.goes.take _, ?_⟩
  rw [covered]
  cases finished : job.state.finished with
  | false =>
    exact Nat.le_trans (Scheduler.wholeTokens_le _ _) (holds.of_through finished offers.prefilled)
  | true => exact holds.done finished (Nat.lt_of_lt_of_le offers.whole offers.backed)

theorem Cells.move {q q' : RequestQueue} {lostBlocks lostSlots : List Nat}
    (cells : s.Cells R config T past) (layout : Layout w config s) (orderly : s.Orderly)
    (books : Books config s lostBlocks lostSlots) (tracks : kind.Tracks R) (kept : T.keeps)
    (clean : s.FailsClean w config)
    (agrees : ∀ job ∈ s.crew, ∀ hit, (PrefixCache.hashPrefix job.state.prompt hit.nTokens, hit) ∈
        s.prefixCache.pairs →
      hit.nTokens ≤ job.state.prompt.length → Agrees R kind job.state.prompt hit)
    (move : Move w config s q s' q') : s'.Cells R config T past := by
  have honest : Honest T past (fun _ _ => True) s.port := fun _ _ _ _ _ _ _ _ _ _ _ => trivial
  have jobs : ∀ job ∈ s'.crew, (s'.seat T past job).Holds R config := by
    intro job member
    cases move.seats T layout orderly books honest job member with
    | staged old stage =>
      exact (cells.jobs _ old).stage tracks kept clean (agrees _ old) cells.entries stage
    | entered seat =>
      rw [seat]
      exact .enter _ _ _
  refine ⟨jobs, fun p member => ?_⟩
  cases move.entries T layout books member with
  | old before held =>
    rw [held]
    exact cells.entries p before
  | fed before held =>
    -- what is fed goes behind what the entry covers
    obtain ⟨slot, found, entry⟩ := cells.entries p before
    rw [held, found]
    refine ⟨_, rfl, entry.goes.beyond ?_ _, ?_⟩
    · have covers := entry.covers
      rw [List.length_take]
      omega
    · have covers := entry.covers
      simp only [Slot.feed, List.length_append]
      omega
  | spoiled before held =>
    rw [held kept]
    exact cells.entries p before
  | @published job active offers entry =>
    subst entry
    obtain ⟨slot, held, holds⟩ := jobs job (List.mem_append_left _ active)
    have origin := (layout.move move).origin job active
    exact ⟨slot, held, Cells.published origin holds offers⟩
  | @kept job donor active finished backed entry held =>
    subst entry
    -- the donor has a copy of what the job held before the move
    obtain ⟨slot, found, holds⟩ := cells.jobs job (List.mem_append_left _ active)
    have whole : wholeTokens config job.state.prompt ≤ slot.cells.length := holds.done finished backed
    simp only [seat] at found
    rw [found] at held
    refine ⟨_, held, ?_, ?_⟩
    · exact (holds.goes.take _).copy tracks _
    · simp only [Slot.inherit, List.length_map, List.length_take, Scheduler.keptEntry]
      omega

end Continuous

end MicroVllm
