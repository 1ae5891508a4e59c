import MicroVllm.Scheduler.Freshness
import MicroVllm.Scheduler.Isolation
import MicroVllm.Scheduler.Limits
import MicroVllm.Scheduler.Positions

/-! # The two modes agree

Static and continuous batching share the sequences and nothing else.  With an engine that never
throws, a request that is neither failed nor refused gets in either mode what it would get alone,
so the modes can only differ in whom they refuse.  Continuous mode refuses nobody that fits the
pool; static mode reserves prompt and budget up front, and refuses whoever finds no room next to
the others of the batch.
-/

namespace MicroVllm

/-! ## Nothing went wrong -/

/-- How a sequence stands with which nothing went wrong.  `refusable` is what it takes to refuse
    one, `warm` what it takes for one to inherit cached tokens. -/
structure Clean (refusable warm : Prop) (reason : FinishReason) (usage : Usage) : Prop where
  unfailed : reason ≠ .error
  refused : reason = .contextOverflow → refusable
  cached : warm ∨ usage.cachedPromptTokens = 0

namespace SequenceState

variable {σ : Type} {w : World σ} {refusable warm : Prop} {s t : SequenceState}

abbrev Clean (refusable warm : Prop) (s : SequenceState) : Prop :=
  MicroVllm.Clean refusable warm s.reason s.usage

theorem Clean.accept {step : GenStep} {goesOn : Bool} (clean : s.Clean refusable warm)
    (accepts : s.Accepts w step goesOn t) : t.Clean refusable warm := by
  have cached := clean.cached
  cases accepts with
  | done => exact clean
  | eos | budget | stop | cancelled =>
    exact ⟨by simp [stopWith], by simp [stopWith], cached⟩
  | goesOn => exact ⟨clean.unfailed, clean.refused, cached⟩

theorem Clean.close (clean : s.Clean refusable warm) : s.closed.Clean refusable warm := by
  unfold Clean
  rw [closed_reason, closed_usage]
  exact clean

/-- A new sequence, unless the context is too small for it. -/
theorem clean_newJob (request : Request) (slot : Nat)
    (fits : (Scheduler.newJob w request slot).state.finished = true → refusable) :
    (Scheduler.newJob w request slot).state.Clean refusable warm := by
  simp only [Scheduler.newJob, Scheduler.checkContext] at fits ⊢
  split
  · rename_i large
    rw [if_pos large] at fits
    exact ⟨by simp [fail, stopWith], fun _ => fits rfl, .inr rfl⟩
  · exact ⟨by simp [Scheduler.newState, make], by simp [Scheduler.newState, make], .inr rfl⟩

end SequenceState

theorem Served.clean {refusable warm : Prop} {job job' : Job} {items : List BatchItem}
    (served : Served job job' items) (clean : job.state.Clean refusable warm) :
    job'.state.Clean refusable warm := by
  cases served <;> exact clean

/-! ## Continuous mode -/

section Continuous

variable {σ α : Type} {w : World σ} {config : SchedulerConfig} {kind : CellKind α}

/-- Only caching warms a sequence, and only the pool can refuse it. -/
theorem Stage.clean {A : Slot α → GenStep → Prop} {keeps : Prop} {s : Continuous σ} {kv : Kv α}
    {seat seat' : Seat α} (stage : Stage w config kind A keeps s kv seat seat')
    (tries : s.tryFails w config = false)
    (clean : seat.job.state.Clean True (config.prefixCaching = true)) :
    seat'.job.state.Clean True (config.prefixCaching = true) := by
  cases stage with
  | stay | grow => exact clean
  | adopt pc caching => exact ⟨clean.unfailed, clean.refused, .inl caching⟩
  | serve pc member served => exact served.clean clean
  | spoil fails | drop fails => simp [tries] at fails
  | goOn through accepts => exact clean.accept accepts
  | stop through accepts =>
    simp only [SequenceState.finish_state]
    exact (clean.accept accepts).close
  | overflow =>
    simp only [SequenceState.finish_state]
    apply SequenceState.Clean.close
    exact ⟨by simp [SequenceState.fail, SequenceState.stopWith], fun _ => trivial, clean.cached⟩

end Continuous

namespace Server

variable {σ : Type} {w : World σ} {config : SchedulerConfig} {capacity : Nat} {world : σ}
variable {past : List Event} {s : Server (Continuous σ)}

theorem clean_run (engine : w.NeverThrows) (answers : w.Answers) (apart : config.Apart)
    (run : (continuous w config capacity world).Run past s) :
    ∀ job ∈ s.thread.crew, job.state.Clean True ((config.construct w.caps).prefixCaching = true) := by
  refine continuous_thread_invariant ?_ ?_ run.guarded_true
  · simp [Continuous.crew, Continuous.start, Pc.inHand]
  · intro past s thread queue run settled clean move _ job member
    obtain ⟨lostBlocks, lostSlots, books⟩ := books_run apart run.of_guarded
    have tries : s.thread.tryFails w (config.construct w.caps) = false :=
      (answered_run answers run.of_guarded).tryFails engine
    -- the contents of the slots do not matter here
    have honest : Continuous.Honest (.history w .token true) past (fun _ _ => True) s.thread.port :=
      fun _ _ _ _ _ _ _ _ _ _ _ => trivial
    cases move.seats _ settled.layout (orderly_run run.of_guarded) books honest job member with
    | staged old stage => exact stage.clean tries (clean _ old)
    | @entered request slot seat =>
      have same : job = Scheduler.newJob w request slot := congrArg Seat.job seat
      rw [same]
      exact SequenceState.clean_newJob request slot fun _ => trivial

/-- No result is a failure, and without caching none counts cached tokens. -/
theorem clean_results (engine : w.NeverThrows) (answers : w.Answers) (apart : config.Apart)
    (run : (continuous w config capacity world).Run past s) :
    ∀ id result, Event.setValue id result ∈ past →
      Clean True ((config.construct w.caps).prefixCaching = true) result.reason result.usage := by
  intro id result event
  obtain ⟨earlier, t, _, _, ran, _, _, delivered, _⟩ := delivered_run run.guarded_true event
  have clean := clean_run engine answers apart ran.of_guarded
  cases delivered with
  | retired inside => exact (clean _ inside).close
  | rejected inside =>
    apply SequenceState.Clean.close
    exact ⟨by simp [SequenceState.fail, SequenceState.stopWith], fun _ => trivial, (clean _ inside).cached⟩

end Server

/-! ## Static mode -/

/-- The steps not yet used. -/
def StaticPc.steps : StaticPc → List GenStep
  | .acceptPrefill _ _ steps => steps
  | .acceptDecode _ steps => steps
  | _ => []

namespace Static

variable {σ : Type} {w : World σ} {config : SchedulerConfig} {s s' : Static σ} {q q' : RequestQueue}

theorem AcceptLoop.steps_stay {leave : StaticPc} {stay : List Nat → List GenStep → StaticPc}
    (loop : AcceptLoop leave stay) (slots : List Nat) (steps : List GenStep) :
    (stay slots steps).steps = steps := by
  cases loop <;> rfl

/-- No sampled job is short of a step. -/
def Answered (s : Static σ) : Prop := s.pc.waiting.length ≤ s.pc.steps.length

theorem Answered.move (answered : s.Answered) (answers : w.Answers) (move : Move w config s q s' q') :
    s'.Answered := by
  have enough : ∀ {items steps port}, s.port.decode w items = (.ok steps, port) →
      (items.filter (·.sample)).length ≤ steps.length := by
    intro items steps port returned
    have result : (w.decode items s.port.world).1 = .ok steps := congrArg Prod.fst returned
    exact answers items s.port.world steps _ (Prod.ext result rfl)
  cases move with
  | @prefill i slice steps port pc more sliced something returned =>
    subst sliced
    show (buildSlice w.caps.nBatch 0 false (s.jobs.drop i)).2.2.1.length ≤ steps.length
    rw [buildSlice_submitted, List.length_map]
    exact enough returned
  | @decode running steps port pc those some returned =>
    show (seqs running).length ≤ steps.length
    rw [← decodes_sampling, List.length_map]
    exact enough returned
  | acceptEnd loop => cases loop <;> exact Nat.zero_le _
  | acceptStray loop pc | acceptGoOn loop pc | acceptFinish loop pc =>
    unfold Answered at answered ⊢
    rw [pc, loop.waiting_stay, loop.steps_stay] at answered
    rw [loop.waiting_stay, loop.steps_stay]
    exact Nat.le_of_succ_le_succ answered
  | _ => exact Nat.zero_le _

/-- The request whose job is built next. -/
def next? (s : Static σ) : Option Request :=
  match s.pc with
  | .make (request :: _) => some request
  | _ => none

/-- The pool has room for prompt and budget of the request whose job is built next. -/
def HasRoom (w : World σ) (s : Static σ) : Prop :=
  ∀ request ∈ s.next?,
    s.blocks.blocksFor (wholeLength (Scheduler.newJob w request s.jobs.length)) ≤ s.blocks.freeBlocks

instance (w : World σ) (s : Static σ) : Decidable (s.HasRoom w) :=
  inferInstanceAs (Decidable (∀ request ∈ s.next?,
    s.blocks.blocksFor (wholeLength (Scheduler.newJob w request s.jobs.length)) ≤ s.blocks.freeBlocks))

/-- A request that the context has room for starts out unfinished. -/
theorem newJob_unfinished {request : Request} (slot : Nat)
    (fits : request.length w ≤ w.caps.nCtxSeq) :
    (Scheduler.newJob w request slot).state.finished = false := by
  rw [← Bool.not_eq_true, Scheduler.newJob_finished_iff]
  rintro ⟨_, large⟩
  have fewer := toUint32_le (request.length w)
  omega

/-- With an engine that never throws and answers for every sampled job, no batch fails. -/
theorem Answered.not_fails (answered : s.Answered) (engine : w.NeverThrows) : ¬ s.Fails w := by
  have returns : ∀ {items message port}, s.port.decode w items ≠ (.error message, port) := by
    intro items message port threw
    have result : (w.decode items s.port.world).1 = .error message := congrArg Prod.fst threw
    have returns := engine.decodes items s.port.world
    rw [result] at returns
    cases returns
  intro fails
  cases fails with
  | slice _ _ threw => exact returns threw
  | lockstep _ threw => exact returns threw
  | short loop pc =>
    unfold Answered at answered
    rw [pc, loop.waiting_stay, loop.steps_stay] at answered
    exact absurd answered (by simp)

section Stages

variable {A : Slot Token → GenStep → Prop} {refusable warm : Prop}

/-- Only the failure path harms a job, and only one that is running. -/
theorem Stage.clean {seat seat' : Seat Token} (stage : Stage w A s seat seat')
    (spared : s.Fails w → seat.job.state.finished = true) (clean : seat.job.state.Clean refusable warm) :
    seat'.job.state.Clean refusable warm := by
  cases stage with
  | stay => exact clean
  | serve served => exact served.clean clean
  | goOn accepted => exact clean.accept (SequenceState.accept_accepts accepted)
  | stop accepted => exact (clean.accept (SequenceState.accept_accepts accepted)).close
  | fail fails unfinished =>
    have finished := spared fails
    simp [unfinished] at finished
  | close => exact clean.close

/-- A job enters clean if it is not refused, neither for the context nor for the pool. -/
theorem Staged.clean {T : Tracker w .token} {past : List Event} {k : Nat} {job' : Job}
    (staged : Staged w T past A s s' k job')
    (spared : s.Fails w → ∀ job, s.jobs[k]? = some job → job.state.finished = true)
    (clean : ∀ job, s.jobs[k]? = some job → job.state.Clean refusable warm)
    (fits : (Scheduler.newJob w job'.request k).state.finished = true → refusable)
    (room : ∀ request ∈ s.next?, (Scheduler.newJob w request s.jobs.length).state.finished = false →
      s.blocks.blocksFor (wholeLength (Scheduler.newJob w request s.jobs.length)) ≤ s.blocks.freeBlocks) :
    job'.state.Clean refusable warm := by
  cases staged with
  | goesOn old stage => exact stage.clean (fun fails => spared fails _ old) (clean _ old)
  | enters pc last made =>
    subst made
    exact SequenceState.clean_newJob _ k fits
  | @full request rest pc last unfinished full made =>
    -- the pool had room for the job
    subst last
    have short := (BlockTable.ensureCapacity_eq_none_iff.mp full).2
    have enough := room request (by simp [next?, pc]) unfinished
    exact absurd (Nat.lt_of_lt_of_le short (Nat.sub_le _ _)) (Nat.not_lt.mpr enough)

end Stages

end Static

namespace Server

variable {σ : Type} {w : World σ} {config : SchedulerConfig} {capacity : Nat} {world : σ}
variable {past : List Event} {s : Server (Static σ)}

theorem static_answered_run (answers : w.Answers) (run : (static w config capacity world).Run past s) :
    s.thread.Answered := by
  refine static_thread_invariant ?_ ?_ run.guarded_true
  · exact Nat.zero_le _
  · intro past s thread queue _ _ answered move _
    have after : thread.Answered := answered.move answers move
    exact after

theorem static_requested_run (run : (static w config capacity world).Run past s) :
    ∀ job ∈ s.thread.jobs, job.request ∈ s.accepted := by
  intro job member
  apply static_known_run run
  apply List.mem_append_right
  exact List.mem_append_right _ (List.mem_map_of_mem member)

/-- If every batch has room for its requests nothing goes wrong. -/
theorem static_clean_run (engine : w.NeverThrows) (answers : w.Answers)
    (run : ((static w config capacity world).guarded fun s _ _ => s.thread.HasRoom w).Run past s)
    (fits : ∀ r ∈ s.accepted, w.tokenize r.spec.prompt true ≠ [] ∧ r.length w ≤ w.caps.nCtxSeq) :
    ∀ job ∈ s.thread.jobs, job.state.Clean False False := by
  refine static_thread_invariant ?_ ?_ (accepting_each run fits)
  · simp [Static.start]
  · rintro past s thread queue run settled before move ⟨room, fits⟩ job member
    have lockstep := lockstep_run (.history w .token true) run.of_guarded fun r member _ => (fits r member).1
    have calm := (static_answered_run answers run.of_guarded).not_fails engine
    obtain ⟨k, there⟩ := List.mem_iff_getElem?.mp member
    have staged := move.staged settled.layout (over_run run.of_guarded) (attending_run run.of_guarded)
      (honest_any (.history w .token true) past _) (lockstep.side k) there
    refine staged.clean (fun fails => absurd fails calm)
      (fun job old => before job (List.mem_of_getElem? old)) ?_ fun request next _ => room request next
    have known : job.request ∈ s.accepted := by
      apply static_known_run run.of_guarded
      apply move.requests
      apply List.mem_append_right
      exact List.mem_append_right _ (List.mem_map_of_mem member)
    intro refused
    have unfinished := Static.newJob_unfinished k (fits _ known).2
    simp [refused] at unfinished

/-- Every result is then that of a request on its own. -/
theorem static_alone_run {S : Sampler} (T : Tracker w .token)
    (honest : ∀ past port, Continuous.Honest T past (fun slot => S slot.params slot.cells) port)
    (quiet : w.NeverCancels) (engine : w.NeverThrows) (answers : w.Answers)
    (run : ((static w config capacity world).guarded fun s _ _ => s.thread.HasRoom w).Run past s)
    (fits : ∀ r ∈ s.accepted, w.tokenize r.spec.prompt true ≠ [] ∧ r.length w ≤ w.caps.nCtxSeq) :
    ∀ id result, Event.setValue id result ∈ past →
      Clean False False result.reason result.usage ∧
      ∃ r ∈ s.accepted, r.id = id ∧ result.Alone w S r.spec := by
  revert fits
  refine static_invariant ?_ ?_ ?_ ?_ run
  · intro _ id result delivered
    cases delivered
  · intro past s request _ before fits id result delivered
    obtain ⟨clean, r, member, rest⟩ := before (fun r member =>
      fits r (push_accepted_subset request s member)) id result delivered
    exact ⟨clean, r, push_accepted_subset request s member, rest⟩
  · exact fun _ _ before => before
  · intro past s thread queue run settled before move _ fits id result delivered
    rcases List.mem_append.mp delivered with earlier | now
    · exact before fits id result earlier
    · have listed := Event.mem_results.mpr now
      have delivers := move.delivers settled.silent
      generalize thread.port.log.filterMap Event.result? = results at listed delivers
      cases delivers with
      | nothing => cases listed
      | @delivered earlier job after pc here =>
        cases List.mem_singleton.mp listed
        have inside : job ∈ s.thread.jobs := by rw [here]; simp
        have finished := over_run run.of_guarded earlier.length pc job inside
        have clean := (static_clean_run engine answers run fits job inside).close
        have unfailed : ¬ { job with state := job.state.closed }.result.Failed := by
          intro failed
          rcases failed with error | refused
          · exact clean.unfailed error
          · exact clean.refused refused
        have paced := paced_run T honest run.of_guarded fun r member _ => (fits r member).1
        have known := static_requested_run run.of_guarded job inside
        simp only [SequenceState.finish_state]
        refine ⟨clean, job.request, known, rfl, ?_⟩
        rcases paced.seats job inside with exact_ | ⟨_, refused⟩
        · exact (exact_.ended finished).alone (fits _ known).1 (fun _ => quiet) unfailed
        · exact (unfailed (.inr ((SequenceState.closed_reason _).trans refused))).elim

end Server

/-- With an engine that samples from the tokens of a sequence and never throws, without prefix
    caching and cancellation: a request delivered in both modes gets the same text, reason and
    usage, in any continuous run and in any static run that finds room for the prompt and the budget
    of each request when it builds its job. -/
theorem modes_agree {σ : Type} (w : World σ) (samples : Samples w) (engine : w.NeverThrows)
    (quiet : w.NeverCancels) (config : SchedulerConfig) (off : config.prefixCaching = false)
    (capacity capacity' : Nat) (world world' : σ) (past past' : List Event)
    (s : Server (Continuous σ)) (t : Server (Static σ))
    (run : (Server.continuous w config capacity world).Run past s)
    (run' : ((Server.static w config capacity' world').guarded fun t _ _ => t.thread.HasRoom w).Run past' t)
    (fits : ∀ r ∈ s.accepted ++ t.accepted, 1 ≤ (w.tokenize r.spec.prompt true).length ∧
      r.length w ≤ w.caps.nCtxSeq ∧
      (config.construct w.caps).blocksOf (r.length w) ≤ (config.construct w.caps).kvBlocks)
    (r r' : Request) (accepted : r ∈ s.accepted) (accepted' : r' ∈ t.accepted) (same : r'.spec = r.spec)
    (result result' : GenResult) (delivered : .setValue r.id result ∈ past)
    (delivered' : .setValue r'.id result' ∈ past') :
    result'.text = result.text ∧ result'.reason = result.reason ∧ result'.usage = result.usage := by
  have nonempty : ∀ r ∈ s.accepted ++ t.accepted, w.tokenize r.spec.prompt true ≠ [] :=
    fun r member => List.length_pos_iff.mp (fits r member).1
  -- nothing goes wrong in continuous mode
  have clean := Server.clean_results engine samples.answers (.inr off) run r.id result delivered
  have unrefused : result.reason ≠ .contextOverflow := by
    obtain ⟨_, context, pool⟩ := fits r (List.mem_append_left _ accepted)
    exact (Server.refused_run engine.toOnlyDecodeThrows (.inr off) (Server.spares_run off run) accepted
      delivered).2 (.inr context) pool
  have alone := Server.alone_of_delivered samples off quiet run accepted
    (nonempty r (List.mem_append_left _ accepted)) delivered (not_or.mpr ⟨clean.unfailed, unrefused⟩)
  -- nor in static mode
  obtain ⟨clean', r₁, known, own, alone'⟩ := Server.static_alone_run samples.tracker samples.honest quiet
    engine samples.answers run' (fun r member =>
      ⟨nonempty r (List.mem_append_right _ member), (fits r (List.mem_append_right _ member)).2.1⟩)
    r'.id result' delivered'
  have identical : r₁ = r' :=
    List.inj_on_of_nodup_map (Server.static_counts_run run'.of_guarded).1 known accepted' own
  rw [identical, same] at alone'
  obtain ⟨text, reason, prompt, completion⟩ := alone.agree (samples.determines r.spec) alone'
  have cached : result'.usage.cachedPromptTokens = result.usage.cachedPromptTokens := by
    have cold := clean.cached.resolve_left (by simp [Server.construct_prefixCaching off])
    rw [cold]
    exact clean'.cached.resolve_left id
  refine ⟨text, reason, ?_⟩
  show Usage.mk _ _ _ = Usage.mk _ _ _
  rw [prompt, completion, cached]

/-- Two requests for a pool that is too small for both at once.  In continuous mode the second is
    preempted and runs again; in static mode it comes when the first batch has been formed, and
    waits.  It gets the same. -/
theorem modes_agree_letter :
    ∃ past past' s t result result',
      (Server.continuous Script.letter.world (.pair 8) 4 fun _ => none).Run past s ∧
      ((Server.static Script.letter.world (.pair 8) 4 fun _ => none).guarded fun t _ _ =>
        t.thread.HasRoom Script.letter.world).Run past' t ∧
      s.accepted = t.accepted ∧ Event.preempt 1 1 0 4 ∈ past ∧
      .setValue 1 result ∈ past ∧ .setValue 1 result' ∈ past' ∧
      result'.text = result.text ∧ result'.reason = result.reason ∧ result'.usage = result.usage := by
  obtain ⟨past, s, run, accepted, preempted, ⟨id, result⟩, delivered, rfl⟩ : ∃ past s,
      (Server.continuous Script.letter.world (.pair 8) 4 fun _ => none).Run past s ∧
      (s.accepted = [{ id := 0, spec := { prompt := [1], maxTokens := 4 } },
          { id := 1, spec := { prompt := [1], maxTokens := 4 } }] ∧ Event.preempt 1 1 0 4 ∈ past ∧
        ∃ d ∈ past.filterMap Event.result?, d.1 = 1) :=
    Server.exists_run ([.push { id := 0, spec := { prompt := [1], maxTokens := 4 } },
      .push { id := 1, spec := { prompt := [1], maxTokens := 4 } }] ++
      List.replicate 115 .run) rfl rfl (by decide +kernel)
  obtain ⟨past', t, run', accepted', ⟨id', result'⟩, delivered', rfl⟩ : ∃ past t,
      ((Server.static Script.letter.world (.pair 8) 4 fun _ => none).guarded fun t _ _ =>
        t.thread.HasRoom Script.letter.world).Run past t ∧
      (t.accepted = [{ id := 0, spec := { prompt := [1], maxTokens := 4 } },
          { id := 1, spec := { prompt := [1], maxTokens := 4 } }] ∧
        ∃ d ∈ past.filterMap Event.result?, d.1 = 1) :=
    Server.exists_guarded ([.push { id := 0, spec := { prompt := [1], maxTokens := 4 } }, .run, .run,
      .push { id := 1, spec := { prompt := [1], maxTokens := 4 } }] ++
      List.replicate 43 .run) rfl rfl (by decide +kernel)
  have done := Event.mem_results.mp delivered
  have done' := Event.mem_results.mp delivered'
  refine ⟨past, past', s, t, result, result', run, run', accepted.trans accepted'.symm, preempted, done,
    done', ?_⟩
  refine modes_agree Script.letter.world Script.letter.samples Script.letter_neverThrows
    Script.letter.world_neverCancels (.pair 8) rfl 4 4 _ _ past past' s t run run' ?_
    { id := 1, spec := { prompt := [1], maxTokens := 4 } }
    { id := 1, spec := { prompt := [1], maxTokens := 4 } } ?_ ?_ rfl result result' done done'
  · rw [accepted, accepted']
    decide
  · rw [accepted]
    decide
  · rw [accepted']
    decide

/-- The same two requests at once.  Each fits the pool alone, and continuous mode serves both, but
    the static batch fails the second for want of room. -/
theorem modes_differ_letter :
    Script.letter.world.NeverThrows ∧ Script.letter.world.NeverCancels ∧
    (SchedulerConfig.pair 8).prefixCaching = false ∧
    ((SchedulerConfig.pair 8).construct Script.letter.caps).maxBatchSize ≤ Script.letter.caps.nBatch ∧
    ∃ past past' s t result result',
      (Server.continuous Script.letter.world (.pair 8) 4 fun _ => none).Run past s ∧
      (Server.static Script.letter.world (.pair 8) 4 fun _ => none).Run past' t ∧
      s.accepted = t.accepted ∧
      (∀ r ∈ s.accepted, 1 ≤ (Script.letter.world.tokenize r.spec.prompt true).length ∧
        (Script.letter.world.tokenize r.spec.prompt true).length ≤ Script.letter.caps.nBatch ∧
        r.length Script.letter.world ≤ Script.letter.caps.nCtxSeq ∧
        ((SchedulerConfig.pair 8).construct Script.letter.caps).blocksOf (r.length Script.letter.world) ≤
          ((SchedulerConfig.pair 8).construct Script.letter.caps).kvBlocks) ∧
      .setValue 1 result ∈ past ∧ .setValue 1 result' ∈ past' ∧
      result.reason = .maxTokens ∧ result.text = [97, 97, 97, 97] ∧
      result'.reason = .contextOverflow ∧ result'.text = [] := by
  obtain ⟨past, s, run, accepted, ⟨id, result⟩, delivered, rfl, reason, text⟩ : ∃ past s,
      (Server.continuous Script.letter.world (.pair 8) 4 fun _ => none).Run past s ∧
      (s.accepted = [{ id := 0, spec := { prompt := [1], maxTokens := 4 } },
          { id := 1, spec := { prompt := [1], maxTokens := 4 } }] ∧
        ∃ d ∈ past.filterMap Event.result?, d.1 = 1 ∧ d.2.reason = .maxTokens ∧
          d.2.text = [97, 97, 97, 97]) :=
    Server.exists_run ([.push { id := 0, spec := { prompt := [1], maxTokens := 4 } },
      .push { id := 1, spec := { prompt := [1], maxTokens := 4 } }] ++
      List.replicate 115 .run) rfl rfl (by decide +kernel)
  obtain ⟨past', t, run', accepted', ⟨id', result'⟩, delivered', rfl, reason', text'⟩ : ∃ past t,
      (Server.static Script.letter.world (.pair 8) 4 fun _ => none).Run past t ∧
      (t.accepted = [{ id := 0, spec := { prompt := [1], maxTokens := 4 } },
          { id := 1, spec := { prompt := [1], maxTokens := 4 } }] ∧
        ∃ d ∈ past.filterMap Event.result?, d.1 = 1 ∧ d.2.reason = .contextOverflow ∧ d.2.text = []) :=
    Server.exists_run ([.push { id := 0, spec := { prompt := [1], maxTokens := 4 } },
      .push { id := 1, spec := { prompt := [1], maxTokens := 4 } }] ++
      List.replicate 25 .run) rfl rfl (by decide +kernel)
  refine ⟨Script.letter_neverThrows, Script.letter.world_neverCancels, rfl, by decide, past, past', s, t,
    result, result', run, run', accepted.trans accepted'.symm, ?_, Event.mem_results.mp delivered,
    Event.mem_results.mp delivered', reason, text, reason', text'⟩
  rw [accepted]
  decide

end MicroVllm
