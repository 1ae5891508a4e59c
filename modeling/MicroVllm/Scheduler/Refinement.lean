import MicroVllm.Generator
import MicroVllm.Scheduler.Places
import MicroVllm.Scheduler.Turns

/-! # A static batch refines the generator

`generate_one` is what a request alone comes to.  A batch whose prompts fit the batch of the engine,
and whose requests fit the context and together the pool, is slices of prompts and rounds of one
token each, none of them too large for the engine.  With an engine that never throws the call for it
returns, and every request gets from it what `generate_one` would have given it.
-/

namespace MicroVllm

/-! ## How much a batch carries -/

theorem tokensOf_cons (item : BatchItem) (items : List BatchItem) :
    tokensOf (item :: items) = item.tokens.length + tokensOf items := List.sum_cons

/-- A round of the lockstep loop carries one token for each running job. -/
theorem tokensOf_decodes (jobs : List Job) :
    tokensOf (jobs.map fun job => job.state.decodeItem) = jobs.length := by
  induction jobs with
  | nil => rfl
  | cons job jobs ih =>
    rw [List.map_cons, tokensOf_cons, ih, List.length_cons, Nat.add_comm]
    rfl

namespace Static

variable {σ : Type} {w : World σ} {config : SchedulerConfig} {s s' : Static σ} {q q' : RequestQueue}

/-- The first of the jobs that has not finished. -/
def foremost (jobs : List Job) : Option Job := jobs.find? fun job => !job.state.finished

theorem foremost_cons (job : Job) (jobs : List Job) :
    foremost (job :: jobs) = if job.state.finished then foremost jobs else some job := by
  cases finished : job.state.finished <;> simp [foremost, finished]

theorem mem_of_foremost {jobs : List Job} {job : Job} (first : foremost jobs = some job) : job ∈ jobs :=
  List.mem_of_find?_eq_some first

/-- Once a slice has its first prompt it takes no further one that is too much. -/
theorem buildSlice_within_of_started {nBatch tokens : Nat} (within : tokens ≤ nBatch) (jobs : List Job) :
    tokens + tokensOf (buildSlice nBatch tokens true jobs).2.1 ≤ nBatch := by
  induction jobs generalizing tokens with
  | nil => exact within
  | cons job jobs ih =>
    simp only [buildSlice]
    split
    · exact ih within
    · split
      · exact within
      · rename_i fits
        have room : tokens + job.state.prefillRemaining ≤ nBatch := by
          simpa using fits
        have rest := ih room
        rw [prefillItem_chunk, tokensOf_cons, length_takePrefillChunk (Nat.le_refl _)]
        omega

/-- A slice takes its first prompt whatever its length, and that is the only way to get too large. -/
theorem buildSlice_within_iff (nBatch : Nat) (jobs : List Job) :
    tokensOf (buildSlice nBatch 0 false jobs).2.1 ≤ nBatch ↔
      ∀ job, foremost jobs = some job → job.state.prefillRemaining ≤ nBatch := by
  induction jobs with
  | nil => simp [buildSlice, tokensOf, foremost]
  | cons job jobs ih =>
    rw [foremost_cons]
    simp only [buildSlice]
    by_cases finished : job.state.finished = true
    · rw [if_pos finished, if_pos finished]
      exact ih
    · rw [if_neg finished, if_neg finished, if_neg (by simp)]
      simp only [prefillItem_chunk, tokensOf_cons, length_takePrefillChunk (Nat.le_refl _), Nat.zero_add,
        Option.some.injEq, forall_eq']
      constructor
      · intro whole
        omega
      · exact fun fits => buildSlice_within_of_started fits jobs

/-- What the thread submits next is not too much for the engine: there are not more jobs than a
    batch may have tokens, and the prompt a slice begins with fits. -/
structure Fitting (w : World σ) (s : Static σ) : Prop where
  few : s.jobs.length ≤ w.caps.nBatch
  foremost : ∀ i, s.pc = .prefill i → ∀ job, Static.foremost (s.jobs.drop i) = some job →
    job.state.prefillRemaining ≤ w.caps.nBatch

theorem Fitting.slice {i : Nat} (fitting : s.Fitting w) (pc : s.pc = .prefill i) :
    tokensOf (buildSlice w.caps.nBatch 0 false (s.jobs.drop i)).2.1 ≤ w.caps.nBatch :=
  (buildSlice_within_iff _ _).mpr (fitting.foremost i pc)

theorem Fitting.lockstep (fitting : s.Fitting w) :
    tokensOf ((s.jobs.filter fun job => !job.state.finished).map fun job => job.state.decodeItem) ≤
      w.caps.nBatch := by
  rw [tokensOf_decodes]
  exact (List.length_filter_le _ _).trans fitting.few

theorem Fitting.submits (fitting : s.Fitting w) (silent : s.port.log = []) (move : Move w config s q s' q')
    {items : List BatchItem} {ok : Bool} (submitted : .decode items ok ∈ s'.port.log) :
    tokensOf items ≤ w.caps.nBatch := by
  -- a move submits one batch, and what else it logs is no batch
  have batch : ∀ {items' result} {port port' : Port σ}, port.log = [] → port.decode w items' = (result, port') →
      port'.Adds Event.Routine s'.port → items = items' := by
    intro items' result port port' silent decoded adds
    obtain ⟨more, log, all⟩ := adds
    rw [log, Port.log_decode decoded, silent, List.nil_append] at submitted
    rcases List.mem_append.mp submitted with here | later
    · cases List.mem_singleton.mp here
      rfl
    · exact absurd (all _ later) id
  cases move.decodes with
  | routine adds =>
    obtain ⟨more, log, all⟩ := adds
    rw [log, silent] at submitted
    exact absurd (all _ submitted) id
  | slice pc decoded adds =>
    rw [batch silent decoded adds]
    exact fitting.slice pc
  | lockstep pc decoded adds =>
    rw [batch silent decoded adds]
    exact fitting.lockstep

/-- Inside of a call the thread leaves the queue alone. -/
theorem Move.queue_eq (move : Move w config s q s' q') (inside : s.pc.collecting = false) : q' = q := by
  cases move with
  | collect pc => simp [pc, StaticPc.collecting] at inside
  | _ => rfl

end Static

/-! ## Along a call -/

namespace Server

variable {σ : Type} {w : World σ} {config : SchedulerConfig} {capacity : Nat} {world : σ}
variable {past more : List Event} {s t : Server (Static σ)} {batch : List Request}

section Call

variable (run : (static w config capacity world).Run past s) (formed : s.thread.pc = .make batch)
variable (empty : s.thread.jobs = [])

include run formed empty

/-- The batch finds the whole pool free. -/
theorem freeBlocks_formed :
    s.thread.blocks.freeBlocks = (config.construct w.caps).kvBlocks ∧
      s.thread.blocks.blockSize = (config.construct w.caps).blockSize := by
  have pooled := pooled_run run (by simp [formed])
  have accounts := pooled.accounts
  have nobody : tables s.thread.roster = [] := by simp [Static.roster, formed, empty]
  rw [nobody] at accounts
  exact ⟨accounts.freeBlocks_of_nil.trans pooled.total, pooled.size⟩

/-- No request of the batch is lost or answered twice. -/
theorem conserved_call (engine : w.OnlyDecodeThrows) (call : (call w config capacity world s).Run more t)
    (id : Nat) : t.thread.held.count id + (fulfilled more).count id = (requestIds batch).count id := by
  refine call_invariant run ?_ ?_ call
  · simp [Static.held, formed, empty, fulfilled, owners]
  · intro more u thread queue _ settled inside same move
    have moved := move.conserves settled.silent (move.alive engine) id
    have log : fulfilled (more ++ thread.port.log) = fulfilled more ++ fulfilled thread.port.log :=
      List.filterMap_append
    have held : thread.quiet.held = thread.held := rfl
    rw [move.queue_eq inside] at moved
    rw [log, List.count_append]
    simp only [held]
    omega

/-- A call that has returned has answered each request of its batch once. -/
theorem fulfilled_call (engine : w.OnlyDecodeThrows) (call : (call w config capacity world s).Run more t)
    (returned : t.thread.pc = .collect []) : (fulfilled more).Perm (requestIds batch) := by
  rw [List.perm_iff_count]
  intro id
  have conserved := conserved_call run formed empty engine call id
  have nobody : t.thread.held = [] := by simp [Static.held, returned, requestIds]
  rw [nobody, List.count_nil] at conserved
  omega

variable (few : batch.length ≤ w.caps.nBatch)
variable (prompts : ∀ r ∈ batch, (w.tokenize r.spec.prompt true).length ≤ w.caps.nBatch)

include few prompts

theorem fitting_call (call : (call w config capacity world s).Run more t) : t.thread.Fitting w := by
  have seated := seated_call run formed empty call
  refine ⟨seated.length_le.trans few, ?_⟩
  intro i pc job first
  have member := List.mem_of_mem_drop (Static.mem_of_foremost first)
  obtain ⟨k, here⟩ := List.mem_iff_getElem?.mp member
  have listed : job ∈ t.thread.roster := by simpa [Static.roster, pc] using member
  obtain ⟨_, origin, _⟩ := (static_heard_run (run.andThen call.of_guarded)).2.roster job listed
  calc job.state.prefillRemaining ≤ job.state.prompt.length := Nat.sub_le _ _
    _ = (w.tokenize job.request.spec.prompt true).length := by rw [origin.prompt]
    _ ≤ w.caps.nBatch := prompts job.request (List.mem_of_getElem? (seated.request here))

/-- Every batch of the call is within the limit of the engine. -/
theorem within_call (call : (call w config capacity world s).Run more t) :
    ∀ items ok, .decode items ok ∈ more → tokensOf items ≤ w.caps.nBatch := by
  refine guarded_call_invariant run ?_ ?_ call.guarded_true
  · exact fun _ _ submitted => nomatch submitted
  · intro more u thread queue earlier _ settled _ within move _ items ok submitted
    rcases List.mem_append.mp submitted with old | now
    · exact within items ok old
    · exact (fitting_call run formed empty few prompts earlier.of_guarded).submits settled.silent move now

end Call

end Server

/-! ## The refinement -/

/-- `generate_one`, in whatever slot and for whatever sink, returns after having streamed the text of
    the result and told its reason and usage. -/
def GenResult.Generated {τ : Type} (v : World τ) (spec : RequestSpec) (result : GenResult) : Prop :=
  ∀ (seq : Nat) (sink : SinkRef) (port : Port τ), (∀ world, v.cancelled sink world = false) →
    ∃ port' calls, generateOne v seq spec sink port = some (.ok (), port') ∧
      streamed sink port'.log = streamed sink port.log ++ result.text ∧
      port'.log = calls ++ [.onFinish sink result.reason result.usage]

/-- What a request gets that is not refused is what the generator makes of it. -/
theorem Request.Gets.generated {σ τ : Type} {w : World σ} {samples : Samples w} {r : Request}
    {result : GenResult} (gets : r.Gets w samples.sampler result) (fits : ¬ r.Refused w) {v : World τ}
    {twin : Samples v} (alike : samples.Twin twin) (engine : v.NeverThrows) : result.Generated v r.spec := by
  intro seq sink port silent
  obtain ⟨port', ran⟩ := generateOne_returns engine twin.answers seq r.spec sink port
  rcases gets with ⟨refused, _⟩ | ⟨_, ⟨final, concludes, text, reason, prompt, completion⟩, cold, _⟩
  · exact absurd refused fits
  · obtain ⟨final', concludes', sent, calls, usage, log, counted, generated, cold'⟩ :=
      @generateOne_told _ _ twin _ _ _ _ _ silent ran
    -- both ran the same generation, and it has one end
    cases concludes.det (samples.determines r.spec) (alike.concludes concludes')
    have same : result.usage = usage := by
      show Usage.mk _ _ _ = Usage.mk _ _ _
      rw [prompt, completion, cold, counted, generated, cold']
    rw [text, reason, same]
    exact ⟨port', calls, ran, sent, log⟩

/-- What is reserved for the batch is no more than its lengths come to in blocks. -/
theorem Static.demand_le {σ : Type} {w : World σ} {config : SchedulerConfig} {a : BlockAllocator}
    (size : a.blockSize = config.blockSize) (batch : List Request) :
    demand w a batch ≤ (batch.map fun r => config.blocksOf (r.length w)).sum := by
  induction batch with
  | nil => exact Nat.le_refl _
  | cons r batch ih =>
    have own : a.blocksFor (toUint32 (r.length w)) ≤ config.blocksOf (r.length w) :=
      blocksFor_le size (toUint32_le _)
    rw [demand_cons, List.map_cons, List.sum_cons]
    by_cases refused : r.Refused w
    · rw [if_pos refused]
      omega
    · rw [if_neg refused]
      omega

/-- `run_batch` refines `generate_one`.  The call for a batch that fits the engine, the context and the
    pool returns after a bounded number of turns, whatever else the clients do meanwhile; no batch of
    it carries more than `n_batch` tokens; and when it has returned every request has been delivered
    one result, with the text, reason and usage that the generator gives it alone, on this engine or
    on another that tokenizes, spells and samples alike. -/
theorem runBatch_refines_generateOne {σ τ : Type} (w : World σ) (samples : Samples w) (engine : w.NeverThrows)
    (config : SchedulerConfig) (capacity : Nat) (world : σ) (past : List Event) (s : Server (Static σ))
    (run : (Server.static w config capacity world).Run past s) (batch : List Request)
    (formed : s.thread.pc = .make batch) (empty : s.thread.jobs = [])
    (uncancelled : ∀ r ∈ batch, ∀ world, w.cancelled r.target world = false)
    (prompts : ∀ r ∈ batch, 1 ≤ (w.tokenize r.spec.prompt true).length ∧
      (w.tokenize r.spec.prompt true).length ≤ w.caps.nBatch)
    (few : batch.length ≤ w.caps.nBatch) (context : ∀ r ∈ batch, r.length w ≤ w.caps.nCtxSeq)
    (pool : (batch.map fun r => (config.construct w.caps).blocksOf (r.length w)).sum ≤
      (config.construct w.caps).kvBlocks)
    (v : World τ) (twin : Samples v) (alike : samples.Twin twin) (alone : v.NeverThrows) :
    ∃ bound, ∀ actions more t, Server.callOn w config actions s = some (more, t) →
      (∃ n more' t', actions.count .run + n ≤ bound ∧
        Server.callOn w config (actions ++ List.replicate n .run) s = some (more', t') ∧
        t'.thread.pc = .collect []) ∧
      (∀ items ok, .decode items ok ∈ more → tokensOf items ≤ w.caps.nBatch) ∧
      (t.thread.pc = .collect [] → (fulfilled more).Perm (requestIds batch) ∧
        ∀ r ∈ batch, ∃ result, .setValue r.id result ∈ more ∧ result.Generated v r.spec) := by
  refine ⟨s.thread.left w, fun actions more t called => ?_⟩
  have call : (Server.call w config capacity world s).Run more t := Server.call_of_callOn called
  refine ⟨Server.call_returns engine.toOnlyDecodeThrows run formed called,
    Server.within_call run formed empty few (fun r member => (prompts r member).2) call, fun returned => ?_⟩
  have answered := Server.fulfilled_call run formed empty engine.toOnlyDecodeThrows call returned
  refine ⟨answered, fun r member => ?_⟩
  obtain ⟨result, delivered⟩ := mem_fulfilled.mp (answered.mem_iff.mpr (List.mem_map_of_mem member))
  refine ⟨result, delivered, ?_⟩
  -- the request has its place, its room and an engine that does not fail it
  obtain ⟨k, place⟩ := List.mem_iff_getElem?.mp member
  obtain ⟨free, size⟩ := Server.freeBlocks_formed run formed empty
  have room : Static.demand w s.thread.blocks batch ≤ s.thread.blocks.freeBlocks := by
    rw [free]
    exact (Static.demand_le size batch).trans pool
  have spared : ((Server.call w config capacity world s).guarded fun u _ _ => u.thread.Spares w k).Run more t :=
    call.guard fun _ u _ _ earlier _ fails => absurd fails
      ((Server.static_answered_run samples.answers (run.andThen earlier.of_guarded)).not_fails engine)
  have prompt : w.tokenize r.spec.prompt true ≠ [] := List.length_pos_iff.mp (prompts r member).1
  have fits : ¬ r.Refused w := by
    intro refused
    have isOver : w.caps.nCtxSeq < r.length w := Nat.lt_of_lt_of_le refused.2 (toUint32_le _)
    exact absurd (context r member) (Nat.not_le_of_gt isOver)
  have finished := Server.uncancelled_call run formed empty place samples prompt room spared delivered
    (uncancelled r member)
  exact ((Server.gets_call run formed empty place samples prompt room spared delivered).2 finished).generated
    fits alike alone

/-- Two requests in one batch, each of them given what it would have been given alone. -/
theorem runBatch_refines_generateOne_letter :
    ∃ past s more t,
      (Server.static Script.letter.world (.pair 16) 4 fun _ => none).Run past s ∧
      (s.thread.pc = .make [{ id := 0, spec := { prompt := [1], maxTokens := 4 } },
        { id := 1, spec := { prompt := [1, 2], maxTokens := 3 } }] ∧ s.thread.jobs = []) ∧
      Server.callOn Script.letter.world (.pair 16) (List.replicate 27 .run) s = some (more, t) ∧
      t.thread.pc = .collect [] ∧ (fulfilled more).Perm [0, 1] ∧
      ∃ result, .setValue 1 result ∈ more ∧
        result.Generated Script.letter.world { prompt := [1, 2], maxTokens := 3 } := by
  obtain ⟨past, s, run, formed, empty, ends⟩ : ∃ past s,
      (Server.static Script.letter.world (.pair 16) 4 fun _ => none).Run past s ∧
      (s.thread.pc = .make [{ id := 0, spec := { prompt := [1], maxTokens := 4 } },
          { id := 1, spec := { prompt := [1, 2], maxTokens := 3 } }] ∧ s.thread.jobs = [] ∧
        (Server.callOn Script.letter.world (.pair 16) (List.replicate 27 .run) s).any
          (fun r => r.2.thread.pc = .collect []) = true) :=
    Server.exists_run [.push { id := 0, spec := { prompt := [1], maxTokens := 4 } },
      .push { id := 1, spec := { prompt := [1, 2], maxTokens := 3 } }, .run, .run, .run] rfl rfl
      (by decide +kernel)
  obtain ⟨⟨more, t⟩, called, returned⟩ := (Option.any_eq_true _ _).mp ends
  have returned : t.thread.pc = .collect [] := of_decide_eq_true returned
  obtain ⟨_, refines⟩ := runBatch_refines_generateOne Script.letter.world Script.letter.samples
    Script.letter_neverThrows (.pair 16) 4 _ past s run _ formed empty (fun _ _ _ => rfl) (by decide)
    (by decide) (by decide) (by decide) Script.letter.world Script.letter.samples ⟨rfl, rfl, rfl⟩
    Script.letter_neverThrows
  obtain ⟨answered, each⟩ := (refines _ more t called).2.2 returned
  exact ⟨past, s, more, t, run, ⟨formed, empty⟩, called, returned, answered,
    each { id := 1, spec := { prompt := [1, 2], maxTokens := 3 } } (by simp)⟩

end MicroVllm
