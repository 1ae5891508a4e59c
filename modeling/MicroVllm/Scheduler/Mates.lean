import MicroVllm.Scheduler.Refinement

/-! # The others in a static batch

A slice takes the prompt it begins with whatever its length.  An engine that throws at a batch of more
than `n_batch` tokens throws at such a slice, and the handler fails every job of the batch that has not
finished: a request gets an error for the prompt of another.  That is the only way one request of a
batch makes itself felt with another; as long as no such slice is submitted while the request is
running, it gets what it would get on its own.
-/

namespace MicroVllm

/-- An engine that throws exactly when a batch carries more than `n_batch` tokens. -/
structure World.Budgeted {σ : Type} (w : World σ) : Prop extends World.OnlyDecodeThrows w where
  decodes : ∀ items s, (w.decode items s).1.isOk = true ↔ tokensOf items ≤ w.caps.nBatch

theorem World.Budgeted.threw {σ : Type} {w : World σ} (engine : w.Budgeted) {items : List BatchItem}
    {port port' : Port σ} {message : String} (threw : port.decode w items = (.error message, port')) :
    w.caps.nBatch < tokensOf items := by
  have result : (w.decode items port.world).1 = .error message := congrArg Prod.fst threw
  have within := engine.decodes items port.world
  rw [result] at within
  by_contra fits
  exact absurd (within.mpr (Nat.le_of_not_lt fits)) (by simp [Except.isOk, Except.toBool])

theorem World.Budgeted.returned {σ : Type} {w : World σ} (engine : w.Budgeted) {items : List BatchItem}
    {port port' : Port σ} {steps : List GenStep} (returned : port.decode w items = (.ok steps, port')) :
    tokensOf items ≤ w.caps.nBatch := by
  have result : (w.decode items port.world).1 = .ok steps := congrArg Prod.fst returned
  apply (engine.decodes items port.world).mp
  rw [result]
  rfl

namespace Static

variable {σ : Type} {w : World σ} {config : SchedulerConfig} {s s' : Static σ} {q q' : RequestQueue}
variable {k : Nat}

/-! ## The one slice that is too large -/

/-- When a slice is to begin with a prompt that is too long, the job in place `k` has finished. -/
def Within (w : World σ) (k : Nat) (s : Static σ) : Prop :=
  ∀ i, s.pc = .prefill i → ∀ job, foremost (s.jobs.drop i) = some job →
    w.caps.nBatch < job.state.prefillRemaining →
      ∀ own, s.jobs[k]? = some own → own.state.finished = true

theorem exists_of_not_within (outside : ¬ s.Within w k) :
    ∃ i job own, s.pc = .prefill i ∧ foremost (s.jobs.drop i) = some job ∧
      w.caps.nBatch < job.state.prefillRemaining ∧ s.jobs[k]? = some own ∧ own.state.finished = false := by
  unfold Within at outside
  push Not at outside
  obtain ⟨i, pc, job, first, long, own, here, running⟩ := outside
  exact ⟨i, job, own, pc, first, long, here, by simpa using running⟩

/-- The failure path is taken for a prompt that is too long, and for nothing else. -/
theorem Within.spares (within : s.Within w k) (engine : w.Budgeted) (answered : s.Answered)
    (few : s.jobs.length ≤ w.caps.nBatch) : s.Spares w k := by
  intro fails own here
  cases fails with
  | @slice i message port pc something threw =>
    have large := engine.threw threw
    by_contra running
    have fits : ∀ job, foremost (s.jobs.drop i) = some job → job.state.prefillRemaining ≤ w.caps.nBatch := by
      intro job first
      by_contra long
      exact running (within i pc job first (Nat.lt_of_not_le long) own here)
    have small := (buildSlice_within_iff w.caps.nBatch (s.jobs.drop i)).mpr fits
    omega
  | lockstep pc threw =>
    -- a round carries no more tokens than there are jobs
    have large := engine.threw threw
    rw [tokensOf_decodes] at large
    have most := List.length_filter_le (fun job => !job.state.finished) s.jobs
    omega
  | short loop pc =>
    unfold Answered at answered
    rw [pc, loop.waiting_stay, loop.steps_stay] at answered
    exact absurd answered (by simp)

/-- The batch is over, and the job in place `k` has failed. -/
structure Doomed (k : Nat) (s : Static σ) : Prop where
  isOver : (∃ i, s.pc = .deliver i) ∨ s.pc = .collect []
  failed : ∀ job, s.jobs[k]? = some job → job.state.finished = true ∧ job.state.reason = .error

theorem Doomed.quiet (doomed : s.Doomed k) : s.quiet.Doomed k := ⟨doomed.isOver, doomed.failed⟩

/-- A slice that begins with a prompt that is too long fails whoever is running. -/
theorem Move.dooms (move : Move w config s q s' q') (engine : w.Budgeted) (outside : ¬ s.Within w k) :
    s'.Doomed k := by
  obtain ⟨i, job, own, pc, first, long, here, running⟩ := exists_of_not_within outside
  -- the slice carries the whole of it
  have large : w.caps.nBatch < tokensOf (buildSlice w.caps.nBatch 0 false (s.jobs.drop i)).2.1 := by
    by_contra small
    have fits := (buildSlice_within_iff _ _).mp (Nat.le_of_not_lt small) job first
    omega
  cases move with
  | @prefillFail i' slice message port pc' more sliced something threw =>
    subst sliced
    refine ⟨.inl ⟨0, rfl⟩, ?_⟩
    intro after there
    obtain ⟨sliced, inside, rfl⟩ := Lists.getElem?_of_forall₂ (settleAll_settles message _ _) there
    obtain ⟨old, there', standing⟩ :=
      Lists.getElem?_of_forall₂ (sliced_standing i' w.caps.nBatch s.jobs) inside
    rw [here] at there'
    cases there'
    have unfinished : ¬ sliced.state.finished = true := by simp [standing.finished, running]
    rw [if_neg unfinished]
    exact ⟨SequenceState.closed_finished rfl, SequenceState.closed_reason _⟩
  | prefillEnd pc' through =>
    cases pc.symm.trans pc'
    rw [List.drop_eq_nil_of_le through] at first
    cases first
  | prefillSkip pc' more sliced nothing =>
    cases pc.symm.trans pc'
    subst sliced
    rw [nothing] at large
    exact absurd large (Nat.not_lt_zero _)
  | prefill pc' more sliced something returned =>
    cases pc.symm.trans pc'
    subst sliced
    exact absurd (engine.returned returned) (Nat.not_le_of_gt large)
  | acceptEnd loop pc' | acceptFail loop pc' | acceptStray loop pc' | acceptGoOn loop pc'
  | acceptFinish loop pc' => cases loop <;> cases pc.symm.trans pc'
  | collect pc' | finish pc' | form pc' | made pc' | makeCrash pc' | makeFailed pc' | make pc' | makeFull pc'
  | decodeEnd pc' | decode pc' | decodeFail pc' | deliver pc' | deliverEnd pc' => cases pc.symm.trans pc'

/-- What is left of the batch is to be delivered as it is. -/
theorem Doomed.move (doomed : s.Doomed k) (inside : s.pc.collecting = false)
    (move : Move w config s q s' q') : s'.Doomed k := by
  obtain ⟨i, here⟩ : ∃ i, s.pc = .deliver i := by
    rcases doomed.isOver with delivering | isOver
    · exact delivering
    · simp [isOver, StaticPc.collecting] at inside
  cases move with
  | @deliver before job after finished pc jobs notified =>
    subst notified
    have ended : List.Forall₂ (fun job job' : Job => (job.state.finished = true ∧ job.state.reason = .error) →
        job'.state.finished = true ∧ job'.state.reason = .error) (before ++ job :: after)
        (before ++ { job with state := (job.state.finish w s.port).1, blocks := {} } :: after) := by
      apply Lists.forall₂_around fun _ => id
      intro failed
      simp only [SequenceState.finish_state]
      exact ⟨SequenceState.closed_finished failed.1, (SequenceState.closed_reason _).trans failed.2⟩
    refine ⟨.inl ⟨_, rfl⟩, ?_⟩
    intro later there
    obtain ⟨old, there', goesOn⟩ := Lists.getElem?_of_forall₂ ended there
    rw [← jobs] at there'
    exact goesOn (doomed.failed old there')
  | deliverEnd =>
    apply Doomed.mk (.inr rfl)
    intro later there
    cases there
  | acceptEnd loop pc | acceptFail loop pc | acceptStray loop pc | acceptGoOn loop pc
  | acceptFinish loop pc => cases loop <;> cases here.symm.trans pc
  | collect pc | finish pc | form pc | made pc | makeCrash pc | makeFailed pc | make pc | makeFull pc
  | prefillEnd pc | prefillSkip pc | prefill pc | prefillFail pc
  | decodeEnd pc | decode pc | decodeFail pc => cases here.symm.trans pc

end Static

/-! ## Along a call -/

namespace Server

variable {σ : Type} {w : World σ} {config : SchedulerConfig} {capacity : Nat} {world : σ}
variable {past more : List Event} {s t : Server (Static σ)} {batch : List Request} {k : Nat} {r : Request}

section Call

variable (run : (static w config capacity world).Run past s) (formed : s.thread.pc = .make batch)
variable (empty : s.thread.jobs = []) (place : batch[k]? = some r)

include run formed empty place

/-- Nobody is delivered to before the last slice has been submitted. -/
theorem undelivered_call (engine : w.OnlyDecodeThrows) (call : (call w config capacity world s).Run more t)
    {i : Nat} (pc : t.thread.pc = .prefill i) {own : Job} (here : t.thread.jobs[k]? = some own)
    (result : GenResult) : .setValue r.id result ∉ more := by
  intro delivered
  have sits := (seated_call run formed empty call).request here
  rw [place] at sits
  cases sits
  have once : (requestIds batch).count own.request.id ≤ 1 :=
    List.nodup_iff_count_le_one.mp (batch_nodup run formed) _
  have conserved := conserved_call run formed empty engine call own.request.id
  have held : 0 < t.thread.held.count own.request.id := by
    rw [List.count_pos_iff]
    simp only [Static.held, pc]
    exact List.mem_map_of_mem (List.mem_of_getElem? here)
  have answered : 0 < (fulfilled more).count own.request.id :=
    List.count_pos_iff.mpr (mem_fulfilled.mpr ⟨result, delivered⟩)
  omega

/-- As far as a call has come, it has spared the request, or is about to fail it, or has failed it. -/
theorem spared_or_doomed_call (engine : w.Budgeted) (call : (call w config capacity world s).Run more t) :
    ((Server.call w config capacity world s).guarded fun u _ _ => u.thread.Within w k).Run more t ∨
      ¬ t.thread.Within w k ∨
      (t.thread.Doomed k ∧ ∀ result, .setValue r.id result ∈ more → result.reason = .error) := by
  induction call with
  | start initial => exact .inl (.start initial)
  | @next more u events t earlier step ih =>
    have reached := run.andThen earlier.of_guarded
    -- the step that goes outside is the one that dooms the batch
    by_cases within : u.thread.Within w k
    · rcases ih with spared | outside | ⟨doomed, failed⟩
      · exact .inl (spared.next ⟨step, within⟩)
      · exact absurd within outside
      · obtain ⟨step, inside⟩ := step
        refine .inr (.inr ?_)
        cases step with
        | push request fresh => simpa using ⟨doomed, failed⟩
        | close => simpa using ⟨doomed, failed⟩
        | run stepped =>
          obtain ⟨thread, move, rfl, rfl⟩ := Static.step_move (settledStatic_run reached).layout stepped
          refine ⟨(doomed.move inside move).quiet, ?_⟩
          intro result delivered
          rcases List.mem_append.mp delivered with old | now
          · exact failed result old
          · obtain ⟨job, there, _, rfl⟩ := delivered_call run formed empty place earlier move now
            exact (SequenceState.closed_reason _).trans (doomed.failed job there).2
    · obtain ⟨step, inside⟩ := step
      cases step with
      | push request fresh => exact .inr (.inl within)
      | close => exact .inr (.inl within)
      | run stepped =>
        obtain ⟨thread, move, rfl, rfl⟩ := Static.step_move (settledStatic_run reached).layout stepped
        have doomed := move.dooms engine within
        refine .inr (.inr ⟨doomed.quiet, ?_⟩)
        intro result delivered
        obtain ⟨i, _, own, pc, _, _, here, running⟩ := Static.exists_of_not_within within
        rcases List.mem_append.mp delivered with old | now
        · exact absurd old (undelivered_call run formed empty place engine.toOnlyDecodeThrows earlier pc here result)
        · obtain ⟨job, there, finished, _⟩ := delivered_call run formed empty place earlier move now
          rw [here] at there
          cases there
          simp [running] at finished

/-- A request that has been delivered to was spared, or has failed. -/
theorem spared_or_failed_call (engine : w.Budgeted) (call : (call w config capacity world s).Run more t)
    {result : GenResult} (delivered : .setValue r.id result ∈ more) :
    ((Server.call w config capacity world s).guarded fun u _ _ => u.thread.Within w k).Run more t ∨
      result.reason = .error := by
  rcases spared_or_doomed_call run formed empty place engine call with spared | outside | ⟨_, failed⟩
  · exact .inl spared
  · obtain ⟨i, _, own, pc, _, _, here, _⟩ := Static.exists_of_not_within outside
    exact absurd delivered
      (undelivered_call run formed empty place engine.toOnlyDecodeThrows call pc here result)
  · exact .inr (failed result delivered)

omit place in
/-- Whoever is kept from the prompts that are too long is kept from the failure path. -/
theorem spares_call (engine : w.Budgeted) (answers : w.Answers) (few : batch.length ≤ w.caps.nBatch)
    (call : ((call w config capacity world s).guarded fun u _ _ => u.thread.Within w k).Run more t) :
    ((Server.call w config capacity world s).guarded fun u _ _ => u.thread.Spares w k).Run more t := by
  induction call with
  | start initial => exact .start initial
  | next earlier step ih =>
    have answered := static_answered_run answers (run.andThen earlier.of_guarded.of_guarded)
    have seated := seated_call run formed empty earlier.of_guarded
    exact .next ih ⟨step.1, step.2.spares engine answered (seated.length_le.trans few)⟩

end Call

end Server

/-! ## Isolation -/

/-- A call of `run_batch` that has delivered `result` to the request `r` in place `k` of its batch.  The
    batch has no more requests than a batch of the engine may have tokens, and the pool has room for it. -/
structure BatchOutcome {σ : Type} (w : World σ) (r : Request) (result : GenResult) where
  config : SchedulerConfig
  capacity : Nat
  world : σ
  past : List Event
  entry : Server (Static σ)
  run : (Server.static w config capacity world).Run past entry
  batch : List Request
  formed : entry.thread.pc = .make batch
  empty : entry.thread.jobs = []
  few : batch.length ≤ w.caps.nBatch
  room : Static.demand w entry.thread.blocks batch ≤ entry.thread.blocks.freeBlocks
  k : Nat
  place : batch[k]? = some r
  more : List Event
  exit : Server (Static σ)
  call : (Server.call w config capacity world entry).Run more exit
  delivered : .setValue r.id result ∈ more

/-- No slice of the call began with a prompt that is too long while the request was running. -/
def BatchOutcome.Spared {σ : Type} {w : World σ} {r : Request} {result : GenResult} (mine : BatchOutcome w r result) :
    Prop :=
  ((Server.call w mine.config mine.capacity mine.world mine.entry).guarded fun u _ _ =>
    u.thread.Within w mine.k).Run mine.more mine.exit

theorem BatchOutcome.Spared.gets {σ : Type} {w : World σ} {r : Request} {result : GenResult}
    {mine : BatchOutcome w r result} (spared : mine.Spared) (samples : Samples w) (engine : w.Budgeted)
    (prompt : w.tokenize r.spec.prompt true ≠ []) :
    result.reason ≠ .error ∧ (result.reason ≠ .cancelled → r.Gets w samples.sampler result) :=
  Server.gets_call mine.run mine.formed mine.empty mine.place samples prompt mine.room
    (Server.spares_call mine.run mine.formed mine.empty engine samples.answers mine.few spared) mine.delivered

theorem BatchOutcome.spared_of_prompts {σ : Type} {w : World σ} {r : Request} {result : GenResult}
    (mine : BatchOutcome w r result)
    (prompts : ∀ r' ∈ mine.batch, (w.tokenize r'.spec.prompt true).length ≤ w.caps.nBatch) : mine.Spared := by
  apply mine.call.guard
  intro more u events t earlier _ i pc job first long
  have fitting := Server.fitting_call mine.run mine.formed mine.empty mine.few prompts earlier
  exact absurd (fitting.foremost i pc job first) (Nat.not_le_of_gt long)

/-! ## With a small engine -/

/-- The small engine, throwing at a batch of more tokens than it takes. -/
def Script.strict : Script :=
  { Script.letter with fails := fun _ items => decide (Script.letter.caps.nBatch < tokensOf items) }

theorem Script.strict_budgeted : Script.strict.world.Budgeted where
  toOnlyDecodeThrows := Script.strict.world_onlyDecodeThrows
  decodes items s := by
    by_cases large : Script.letter.caps.nBatch < tokensOf items
    · have threw : (Script.strict.world.decode items s).1 = .error "backend failure" := by
        simp [Script.world, Script.strict, large]
      rw [threw]
      exact iff_of_false (by simp [Except.isOk, Except.toBool]) (Nat.not_le_of_gt large)
    · have returned : ∃ steps, (Script.strict.world.decode items s).1 = .ok steps := by
        simp [Script.world, Script.strict, large]
      obtain ⟨steps, returned⟩ := returned
      rw [returned]
      exact iff_of_true rfl (Nat.le_of_not_lt large)

namespace Script

/-- A request of one token. -/
def brief : Request := { id := 0, spec := { prompt := [1], maxTokens := 4 } }

/-- A request of two. -/
def companion : Request := { id := 1, spec := { prompt := [1, 2], maxTokens := 3 } }

/-- A request of nine, one more than a batch may carry. -/
def lengthy : Request := { id := 1, spec := { prompt := [1, 2, 3, 4, 5, 6, 7, 8, 9], maxTokens := 1 } }

end Script

/-- Two schedules, one up to the call and one for the call, show an outcome. -/
theorem exists_outcome {σ : Type} {w : World σ} (config : SchedulerConfig) (capacity : Nat) (world : σ)
    {batch : List Request} {r : Request} {P : GenResult → Prop} [DecidablePred P] (k : Nat)
    (place : batch[k]? = some r) (few : batch.length ≤ w.caps.nBatch) (actions actions' : List Server.Action)
    (played : (Server.play (Static.step w (config.construct w.caps)) (fun _ _ _ => true) actions []
      { thread := .start w config world, queue := { capacity := capacity } }).any (fun reached =>
        (Server.callOn w config actions' reached.2).any fun ends =>
          reached.2.thread.pc = .make batch ∧ reached.2.thread.jobs = [] ∧
            Static.demand w reached.2.thread.blocks batch ≤ reached.2.thread.blocks.freeBlocks ∧
            ∃ d ∈ ends.1.filterMap Event.result?, d.1 = r.id ∧ P d.2) = true) :
    ∃ result, ∃ mine : BatchOutcome w r result, mine.batch = batch ∧ P result := by
  obtain ⟨past, s, more, t, run, call, formed, empty, room, ⟨id, result⟩, listed, rfl, holds⟩ :
      ∃ past s more t, (Server.static w config capacity world).Run past s ∧
        (Server.call w config capacity world s).Run more t ∧
        (s.thread.pc = .make batch ∧ s.thread.jobs = [] ∧
          Static.demand w s.thread.blocks batch ≤ s.thread.blocks.freeBlocks ∧
          ∃ d ∈ more.filterMap Event.result?, d.1 = r.id ∧ P d.2) :=
    Server.exists_then actions actions' rfl rfl played
  exact ⟨result, ⟨config, capacity, world, past, s, run, batch, formed, empty, few, room, k, place, more, t,
    call, Event.mem_results.mp listed⟩, rfl, holds⟩

theorem Script.exists_alone :
    ∃ result, ∃ mine : BatchOutcome strict.world brief result, mine.batch = [brief] ∧ result.reason = .maxTokens :=
  exists_outcome (.pair 16) 4 (fun _ => none) 0 rfl (by decide)
    [.push brief, .run, .run] (List.replicate 21 .run) (by decide +kernel)

/-! ## The result -/

/-- The requests of a static batch are isolated from each other but for prompts that are too long.  A
    request with a prompt of at most `n_batch` tokens fails exactly if a slice of its batch begins, while
    it is running, with a prompt of more than `n_batch` tokens; and two calls in which that does not
    happen deliver the same result for the same request, whoever else is in their batches, unless its own
    client has cancelled it. -/
theorem batchMates_isolated {σ : Type} (w : World σ) (samples : Samples w) (engine : w.Budgeted)
    (r : Request) (prompt : 1 ≤ (w.tokenize r.spec.prompt true).length) (result : GenResult)
    (mine : BatchOutcome w r result) :
    (result.reason ≠ .error ↔ mine.Spared) ∧
      ∀ (r' : Request) (result' : GenResult) (other : BatchOutcome w r' result'), r'.spec = r.spec →
        mine.Spared → other.Spared → result.reason ≠ .cancelled → result'.reason ≠ .cancelled →
          result' = result := by
  have some : w.tokenize r.spec.prompt true ≠ [] := List.length_pos_iff.mp prompt
  refine ⟨⟨?_, fun spared => (spared.gets samples engine some).1⟩, ?_⟩
  · intro unfailed
    rcases Server.spared_or_failed_call mine.run mine.formed mine.empty mine.place engine mine.call
      mine.delivered with spared | failed
    · exact spared
    · exact absurd failed unfailed
  · intro r' result' other same spared spared' uncancelled uncancelled'
    have gets := (spared.gets samples engine some).2 uncancelled
    have gets' := (spared'.gets samples engine (by rw [same]; exact some)).2 uncancelled'
    exact gets.unique gets' same

/-- The request gets the same alone and next to another whose prompt fits. -/
theorem batchMates_isolated_brief :
    ∃ result, ∃ (mine : BatchOutcome Script.strict.world Script.brief result)
        (other : BatchOutcome Script.strict.world Script.brief result),
      mine.batch = [Script.brief] ∧ other.batch = [Script.brief, Script.companion] ∧ result.reason ≠ .error := by
  obtain ⟨result, mine, alone, reason⟩ := Script.exists_alone
  obtain ⟨result', other, both, reason'⟩ : ∃ result',
      ∃ other : BatchOutcome Script.strict.world Script.brief result',
        other.batch = [Script.brief, Script.companion] ∧ result'.reason = .maxTokens :=
    exists_outcome (.pair 16) 4 (fun _ => none) 0 rfl (by decide)
      [.push Script.brief, .push Script.companion, .run, .run, .run] (List.replicate 27 .run) (by decide +kernel)
  have spared := mine.spared_of_prompts (by rw [alone]; decide)
  have spared' := other.spared_of_prompts (by rw [both]; decide)
  obtain ⟨fails, isolated⟩ := batchMates_isolated Script.strict.world Script.strict.samples
    Script.strict_budgeted Script.brief (by decide) result mine
  have same := isolated Script.brief result' other rfl spared spared' (by simp [reason]) (by simp [reason'])
  subst same
  exact ⟨result', mine, other, alone, both, fails.mpr spared⟩

/-- Next to a request whose prompt passes the context check and is longer than a batch may be, the
    request is failed, with a prompt of one token that has been decoded already. -/
theorem batchMates_isolated_fails :
    Script.strict.world.Budgeted ∧
      (Script.strict.world.tokenize Script.brief.spec.prompt true).length = 1 ∧
      ¬ Script.lengthy.Refused Script.strict.world ∧
      ∃ result result', ∃ (mine : BatchOutcome Script.strict.world Script.brief result)
          (other : BatchOutcome Script.strict.world Script.brief result'),
        mine.batch = [Script.brief, Script.lengthy] ∧ other.batch = [Script.brief] ∧
          result.reason = .error ∧ result'.reason = .maxTokens := by
  obtain ⟨result', other, alone, reason'⟩ := Script.exists_alone
  obtain ⟨result, mine, both, reason⟩ : ∃ result, ∃ mine : BatchOutcome Script.strict.world Script.brief result,
      mine.batch = [Script.brief, Script.lengthy] ∧ result.reason = .error :=
    exists_outcome (.pair 16) 4 (fun _ => none) 0 rfl (by decide)
      [.push Script.brief, .push Script.lengthy, .run, .run, .run] (List.replicate 10 .run) (by decide +kernel)
  exact ⟨Script.strict_budgeted, by decide, by decide, result, result', mine, other, both, alone, reason, reason'⟩

end MicroVllm
