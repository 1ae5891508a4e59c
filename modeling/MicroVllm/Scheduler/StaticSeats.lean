import MicroVllm.Scheduler.Limits

/-! # Jobs of a static batch and their slots

What a move does to the job in one place of a batch, together with what its slot holds: the counterpart
of `Stage` for the static loop.  Only the job in question needs a prompt to submit, whatever the others
of the batch are.
-/

namespace MicroVllm

/-- A seat that is exact, or whose job was failed when the batch was formed. -/
def Seat.Fair {σ : Type} (w : World σ) (S : Sampler) (seat : Seat Token) : Prop :=
  seat.Exact w (S.choice w) (fun _ => True) ∨
    (seat.job.state.finished = true ∧ seat.job.state.reason = .contextOverflow)

namespace Seat.Fair

variable {σ : Type} {w : World σ} {S : Sampler} {seat seat' : Seat Token}

theorem running (fair : seat.Fair w S) (unfinished : seat.job.state.finished = false) :
    ∃ tokens cells, seat.Running w (S.choice w) tokens cells := by
  rcases fair with exact_ | ⟨finished, _⟩
  · exact exact_.running unfinished
  · simp [finished] at unfinished

theorem of_running {tokens cells : List Token} (unfinished : seat.job.state.finished = false)
    (running : seat.Running w (S.choice w) tokens cells) : seat.Fair w S :=
  .inl (.of_running unfinished running)

/-- Once a job has ended its place in the loop and its slot do not matter. -/
theorem congr (fair : seat.Fair w S) (state : seat'.job.state = seat.job.state)
    (request : seat'.job.request = seat.job.request)
    (same : seat.job.state.finished = false → seat'.due = seat.due ∧ seat'.held = seat.held) :
    seat'.Fair w S := by
  rcases fair with exact_ | failed
  · left
    constructor
    · intro unfinished
      rw [state] at unfinished
      obtain ⟨tokens, cells, inside, generates, held, phase⟩ := exact_.running unfinished
      refine ⟨tokens, cells, ?_, ?_, ?_, ?_⟩
      · rwa [request]
      · rwa [request, state]
      · rwa [(same unfinished).2, request]
      · rwa [(same unfinished).1, request, state]
    · intro finished
      rw [state] at finished
      exact (exact_.ended finished).congr state request
  · right
    rw [state]
    exact failed

/-- The sink is notified of how the job ended. -/
theorem close {job : Job} {due due' : Option (Option GenStep)} {held held' : Option (Slot Token)}
    (fair : Seat.Fair w S ⟨job, due, held⟩) (finished : job.state.finished = true) (port : Port σ) :
    Seat.Fair w S ⟨{ job with state := (job.state.finish w port).1 }, due', held'⟩ := by
  simp only [SequenceState.finish_state]
  have closed := SequenceState.closed_finished finished
  rcases fair with exact_ | ⟨_, reason⟩
  · exact .inl (.of_ended closed (exact_.ended finished).close)
  · exact .inr ⟨closed, (SequenceState.closed_reason _).trans reason⟩

/-- A sampled token is accepted and the sequence goes on. -/
theorem goOn {job : Job} {step : GenStep} {state : SequenceState} {held : Option (Slot Token)}
    (fair : Seat.Fair w S ⟨job, some (some step), held⟩) (accepts : job.state.Accepts w step true state) :
    Seat.Fair w S ⟨{ job with state := state }, none, held⟩ := by
  obtain ⟨unfinished, unfinished'⟩ := accepts.unfinished_of_goesOn
  obtain ⟨tokens, cells, running⟩ := fair.running unfinished
  exact .of_running unfinished' (running.goOn accepts rfl rfl)

/-- A sampled token ends the sequence. -/
theorem stop {job : Job} {step : GenStep} {state : SequenceState} {held held' : Option (Slot Token)}
    (fair : Seat.Fair w S ⟨job, some (some step), held⟩) (accepts : job.state.Accepts w step false state)
    (port : Port σ) : Seat.Fair w S ⟨{ job with state := (state.finish w port).1 }, none, held'⟩ := by
  rcases fair with exact_ | ⟨finished, reason⟩
  · exact .inl (exact_.stop accepts)
  · -- a job that had ended is left as it was
    cases accepts with
    | done =>
      have ended : Seat.Fair w S ⟨job, none, none⟩ := .inr ⟨finished, reason⟩
      exact ended.close finished port
    | eos unfinished | budget unfinished | stop unfinished | cancelled unfinished =>
      exact absurd (Eq.trans (Eq.symm finished) unfinished) (by simp)

end Seat.Fair

namespace Static

variable {σ : Type} {w : World σ} {config : SchedulerConfig} {T : Tracker w .token}
variable {past : List Event} {s s' : Static σ}

/-! ## One place of the batch -/

/-- The job in place `k` has its prompt to submit, or is past it, as the loop has come to it. -/
def Sided (k : Nat) (s : Static σ) : Prop :=
  ∀ job, s.jobs[k]? = some job → job.state.finished = false → s.pc.Side k job.state.prefilling

/-- A job that has just been built has its prompt to submit. -/
theorem newJob_prefilling {request : Request} (slot : Nat)
    (nonempty : w.tokenize request.spec.prompt true ≠ []) :
    (Scheduler.newJob w request slot).state.prefilling = true := by
  rw [prefilling_iff, SequenceState.prefillRemaining, Scheduler.newJob_prompt, Scheduler.newJob_prefilled]
  exact List.length_pos_iff.mpr nonempty

namespace Sided

variable {k : Nat}

/-- The job a slice starts from has its prompt to submit. -/
theorem fresh {i : Nat} (sided : s.Sided k) (pc : s.pc = .prefill i) {job : Job}
    (here : s.jobs[k]? = some job) :
    i ≤ k → job.state.finished = false → job.state.prefilling = true := by
  intro inside unfinished
  have side := sided job here unfinished
  rw [pc] at side
  exact side.mpr inside

theorem through (sided : s.Sided k) (pc : s.pc = .decode) {job : Job} (here : s.jobs[k]? = some job) :
    job.state.finished = false → job.state.prefilling = false := by
  intro unfinished
  have side := sided job here unfinished
  rw [pc] at side
  exact side

/-- The jobs are as they were. -/
theorem frame (sided : s.Sided k) (jobs : s'.jobs = s.jobs)
    (side : ∀ prefilling, k < s.jobs.length → s.pc.Side k prefilling → s'.pc.Side k prefilling) :
    s'.Sided k := by
  intro job here unfinished
  rw [jobs] at here
  exact side _ (List.getElem?_eq_some_iff.mp here).1 (sided job here unfinished)

/-- A job joins the batch. -/
theorem join {job : Job} {requests requests' : List Request} (sided : s.Sided k)
    (jobs : s'.jobs = s.jobs ++ [job]) (pc : s.pc = .make requests) (pc' : s'.pc = .make requests')
    (fresh : s'.jobs[k]? = some job → job.state.finished = false → job.state.prefilling = true) :
    s'.Sided k := by
  intro j here unfinished
  rw [pc']
  by_cases old : k < s.jobs.length
  · rw [jobs, List.getElem?_append_left old] at here
    have side := sided j here unfinished
    rw [pc] at side
    exact side
  · have last : j = job := by
      rw [jobs, List.getElem?_append_right (by omega)] at here
      exact List.mem_singleton.mp (List.mem_of_getElem? here)
    subst last
    exact fresh here unfinished

/-- Which jobs are past their prompts after a slice. -/
theorem sliced {i nBatch : Nat} (sided : s.Sided k) (pc : s.pc = .prefill i) (more : i < s.jobs.length)
    {job : Job} (here : (s.jobs.take i ++ (buildSlice nBatch 0 false (s.jobs.drop i)).1)[k]? = some job)
    (unfinished : job.state.finished = false) :
    job.state.prefilling = true ↔ i + (buildSlice nBatch 0 false (s.jobs.drop i)).2.2.2 ≤ k := by
  have length : (s.jobs.take i).length = i := List.length_take_of_le (by omega)
  by_cases earlier : k < i
  · rw [List.getElem?_append_left (by omega), List.getElem?_take, if_pos earlier] at here
    have side := sided job here unfinished
    rw [pc] at side
    constructor
    · intro prefilling
      have := side.mp prefilling
      omega
    · omega
  · rw [List.getElem?_append_right (by omega), length] at here
    have unsubmitted : ∀ old, (s.jobs.drop i)[k - i]? = some old → old.state.finished = false →
        old.state.prefilling = true := by
      intro old there
      rw [List.getElem?_drop, Nat.add_sub_cancel' (by omega)] at there
      exact sided.fresh pc there (by omega)
    rw [buildSlice_side nBatch 0 false here unsubmitted unfinished]
    omega

/-- The job that gets its step keeps its side, and so do the others. -/
theorem around {leave : StaticPc} {stay : List Nat → List GenStep → StaticPc} {slots slots' : List Nat}
    {steps steps' : List GenStep} {earlier later : List Job} {job job' : Job} (sided : s.Sided k)
    (loop : AcceptLoop leave stay) (pc : s.pc = stay slots' steps') (here : s.jobs = earlier ++ job :: later)
    (jobs : s'.jobs = earlier ++ job' :: later) (pc' : s'.pc = stay slots steps)
    (same : job.state.SameRequest job'.state)
    (unfinished : job'.state.finished = false → job.state.finished = false) : s'.Sided k := by
  intro j there running
  have related : List.Forall₂ (fun j j' => j'.state.finished = false →
      j.state.finished = false ∧ j'.state.prefilling = j.state.prefilling) s.jobs s'.jobs := by
    rw [here, jobs]
    apply Lists.forall₂_around
    · exact fun j unfinished => ⟨unfinished, rfl⟩
    · exact fun running => ⟨unfinished running, same.prefilling_eq⟩
  obtain ⟨old, was, kept⟩ := Lists.getElem?_of_forall₂ related there
  have side := sided old was (kept running).1
  rw [pc, loop.side_stay] at side
  rw [pc', loop.side_stay, (kept running).2]
  exact side

theorem quiet (sided : s.Sided k) : s.quiet.Sided k := sided

theorem move {q q' : RequestQueue} (sided : s.Sided k)
    (prompt : ∀ job, s'.jobs[k]? = some job → ¬ job.request.Refused w →
      w.tokenize job.request.spec.prompt true ≠ [])
    (move : Move w config s q s' q') : s'.Sided k := by
  cases move with
  | made pc =>
    refine sided.frame rfl ?_
    intro prefilling _ side
    rw [pc] at side
    exact ⟨fun _ => Nat.zero_le k, fun _ => side⟩
  | makeFailed pc begun made | make pc begun made =>
    subst made
    refine sided.join rfl pc rfl fun here unfinished => newJob_prefilling _ (prompt _ here fun refused => ?_)
    have finished := (Scheduler.newJob_finished_iff w _ s.jobs.length).mpr refused
    exact absurd (finished.symm.trans unfinished) (by simp)
  | makeFull pc =>
    -- nothing is said of a job that has been refused
    refine sided.join rfl pc rfl fun _ unfinished => ?_
    simp [SequenceState.fail, SequenceState.stopWith] at unfinished
  | prefillEnd pc through =>
    -- the slices have gone past every job
    refine sided.frame rfl ?_
    intro prefilling inside side
    rw [pc] at side
    show prefilling = false
    rw [← Bool.not_eq_true]
    intro holds
    have := side.mp holds
    omega
  | prefillSkip pc more those | prefill pc more those =>
    subst those
    exact fun job here unfinished => sided.sliced pc more here unfinished
  | decode pc => exact sided.frame rfl fun _ _ side => by rwa [pc] at side
  | acceptEnd loop pc =>
    refine sided.frame rfl ?_
    intro prefilling _ side
    rwa [pc, loop.side_stay] at side
  | acceptStray loop pc =>
    refine sided.frame rfl ?_
    intro prefilling _ side
    rw [pc, loop.side_stay] at side
    rwa [loop.side_stay]
  | acceptGoOn loop pc here accepted =>
    have accepts := SequenceState.accept_accepts accepted
    exact sided.around loop pc here rfl rfl accepts.same fun _ => accepts.unfinished_of_goesOn.1
  | @acceptFinish leave stay slots step steps earlier job later state port finished loop pc here accepted
      notified =>
    subst notified
    have accepts := SequenceState.accept_accepts accepted
    refine sided.around loop pc here rfl rfl (accepts.same.trans (SequenceState.finish_same (w := w) state port))
      fun unfinished => ?_
    simp [SequenceState.finish_finished accepts.finished_of_stops] at unfinished
  | form =>
    intro job here
    cases here
  | _ => exact fun _ _ _ => trivial

end Sided

/-! ## What can become of a job -/

/-- The next turn takes the failure path. -/
inductive Fails (w : World σ) (s : Static σ) : Prop where
  | slice {i message port} (pc : s.pc = .prefill i)
      (something : (buildSlice w.caps.nBatch 0 false (s.jobs.drop i)).2.1 ≠ [])
      (threw : s.port.decode w (buildSlice w.caps.nBatch 0 false (s.jobs.drop i)).2.1 = (.error message, port))
  | lockstep {message port} (pc : s.pc = .decode)
      (threw : s.port.decode w ((s.jobs.filter fun job => !job.state.finished).map fun job =>
        job.state.decodeItem) = (.error message, port))
  | short {leave stay slot slots} (loop : AcceptLoop leave stay) (pc : s.pc = stay (slot :: slots) [])

/-- What the loop can do to a job, to what it waits for and to what its slot holds.  `A` is what the
    engine may answer for the contents of a slot. -/
inductive Stage (w : World σ) (A : Slot Token → GenStep → Prop) (s : Static σ) :
    Seat Token → Seat Token → Prop where
  | stay {job due due' held held'} (same : job.state.finished = false → due' = due ∧ held' = held) :
      Stage w A s ⟨job, due, held⟩ ⟨job, due', held'⟩
  | serve {job job' items due held} (served : Served job job' items)
      (asked : due ≠ none ↔ ∃ item ∈ items, item.sample = true)
      (answer : ∀ step, due = some (some step) → ∀ slot, held.map (Slot.feed .token items) = some slot →
        A slot step) :
      Stage w A s ⟨job, none, held⟩ ⟨job', due, held.map (Slot.feed .token items)⟩
  | goOn {job step state port port' held} (accepted : job.state.accept w step port = (true, state, port')) :
      Stage w A s ⟨job, some (some step), held⟩ ⟨{ job with state := state }, none, held⟩
  | stop {job step state port port' held held'}
      (accepted : job.state.accept w step port = (false, state, port')) :
      Stage w A s ⟨job, some (some step), held⟩ ⟨{ job with state := state.closed }, none, held'⟩
  | fail {job job' due due' held held'} (fails : s.Fails w) (unfinished : job.state.finished = false)
      (request : job'.request = job.request) (ended : job'.state.finished = true)
      (reason : job'.state.reason = .error) : Stage w A s ⟨job, due, held⟩ ⟨job', due', held'⟩
  | close {job blocks due due' held held'} (finished : job.state.finished = true) :
      Stage w A s ⟨job, due, held⟩ ⟨{ job with state := job.state.closed, blocks := blocks }, due', held'⟩

theorem Stage.request {A : Slot Token → GenStep → Prop} {seat seat' : Seat Token}
    (stage : Stage w A s seat seat') : seat'.job.request = seat.job.request := by
  cases stage with
  | serve served => exact served.request_eq
  | fail _ _ request => exact request
  | _ => rfl

/-- Where the job in place `k` after a move comes from. -/
inductive Staged (w : World σ) (T : Tracker w .token) (past : List Event) (A : Slot Token → GenStep → Prop)
    (s s' : Static σ) (k : Nat) (job' : Job) : Prop where
  | goesOn {job} (old : s.jobs[k]? = some job) (stage : Stage w A s (s.seat T past job) (s'.seat T past job'))
  | enters {request rest table} (pc : s.pc = .make (request :: rest)) (last : k = s.jobs.length)
      (made : job' = { Scheduler.newJob w request k with blocks := table })
      (due : s'.pc.due k = none)
      (held : T.contents past s'.port k = some { params := request.spec.sampling, cells := [] })
  | full {request rest} (pc : s.pc = .make (request :: rest)) (last : k = s.jobs.length)
      (unfinished : (Scheduler.newJob w request k).state.finished = false)
      (full : (Scheduler.newJob w request k).blocks.ensureCapacity
        (wholeLength (Scheduler.newJob w request k)) s.blocks = none)
      (made : job' = { Scheduler.newJob w request k with
        state := (Scheduler.newJob w request k).state.fail noRoomMessage .contextOverflow })

section Stages

variable {A : Slot Token → GenStep → Prop} {k : Nat} {job' : Job}

/-- The failure path fails who is running and notifies all. -/
theorem settleAll_settles (message : String) (jobs : List Job) (port : Port σ) :
    List.Forall₂ (fun job job' => job' = { job with
      state := (if job.state.finished then job.state else job.state.fail message).closed })
      jobs (settleAll w message jobs port).1 :=
  settleAll_relates message (fun _ _ => by rw [SequenceState.finish_state]) jobs port

/-- Where a job is that is neither built nor accepted for. -/
theorem seq_of_place {job : Job} (layout : Layout s) (here : s.jobs[k]? = some job) : job.state.seq = k := by
  have place : (seqs s.jobs)[k]? = some job.state.seq := by
    rw [seqs, List.getElem?_map, here]
    rfl
  unfold Layout at layout
  rw [layout, List.getElem?_range (List.getElem?_eq_some_iff.mp here).1] at place
  exact (Option.some.inj place).symm

theorem staged_same (there : s'.jobs[k]? = some job') (jobs : s'.jobs = s.jobs)
    (due : s'.pc.due job'.state.seq = s.pc.due job'.state.seq)
    (held : T.contents past s'.port job'.state.seq = T.contents past s.port job'.state.seq) :
    Staged w T past A s s' k job' := by
  rw [jobs] at there
  exact .goesOn there (.stay fun _ => ⟨due, held⟩)

/-- A job is built in the next place; those before it stay as they are. -/
theorem staged_join {job : Job} {requests requests' : List Request} (layout : Layout s)
    (there : s'.jobs[k]? = some job') (jobs : s'.jobs = s.jobs ++ [job]) (pc : s.pc = .make requests)
    (pc' : s'.pc = .make requests')
    (held : ∀ slot, slot ≠ s.jobs.length → T.contents past s'.port slot = T.contents past s.port slot)
    (joined : k = s.jobs.length → job' = job → Staged w T past A s s' k job') :
    Staged w T past A s s' k job' := by
  rw [jobs] at there
  by_cases old : k < s.jobs.length
  · rw [List.getElem?_append_left old] at there
    refine .goesOn there (.stay fun _ => ⟨by rw [pc, pc']; rfl, ?_⟩)
    apply held
    rw [seq_of_place layout there]
    omega
  · rw [List.getElem?_append_right (by omega)] at there
    have last : k = s.jobs.length := by
      have := (List.getElem?_eq_some_iff.mp there).1
      simp only [List.length_singleton] at this
      omega
    exact joined last (List.mem_singleton.mp (List.mem_of_getElem? there))

/-- A batch is decoded. -/
theorem staged_serve {job : Job} {items : List BatchItem} {steps : List GenStep} {port : Port σ}
    (honest : Continuous.Honest T past A s.port) (old : s.jobs[k]? = some job)
    (served : Served job job' (itemsOf job.state.seq items))
    (returned : s.port.decode w items = (.ok steps, port)) (idle : ∀ slot, s.pc.due slot = none)
    (port' : s'.port = port)
    (due : ∀ slot, s'.pc.due slot = dueIn slot ((items.filter (·.sample)).map (·.seq)) steps) :
    Staged w T past A s s' k job' := by
  have fed : T.contents past port job.state.seq = (T.contents past s.port job.state.seq).map
      (Slot.feed .token (itemsOf job.state.seq items)) := by
    rw [T.contents_decode returned, Kv.feed_apply]
  have here : s.seat T past job = ⟨job, none, T.contents past s.port job.state.seq⟩ := by
    rw [seat, idle]
  have there : s'.seat T past job' = ⟨job', dueIn job.state.seq ((items.filter (·.sample)).map (·.seq)) steps,
      (T.contents past s.port job.state.seq).map (Slot.feed .token (itemsOf job.state.seq items))⟩ := by
    rw [seat, due, port', served.seq_eq, fed]
  refine .goesOn old ?_
  rw [here, there]
  refine .serve served (dueIn_asked items job.state.seq steps) ?_
  intro step answered slot held
  exact honest.due returned answered (fed.trans held)

/-- The jobs are those of `jobs` when the failure path has been over them. -/
theorem staged_fail {t : Static σ} {message : String} {job sliced : Job} (fails : s.Fails w)
    (there : (t.failBatch w message).jobs[k]? = some job') (old : s.jobs[k]? = some job)
    (slice : t.jobs[k]? = some sliced) (same : job.state.finished = true → sliced = job)
    (finished : sliced.state.finished = job.state.finished) (request : sliced.request = job.request) :
    Staged w T past A s (t.failBatch w message) k job' := by
  obtain ⟨sliced', inside, settled⟩ :=
    Lists.getElem?_of_forall₂ (settleAll_settles message t.jobs t.port) there
  rw [slice] at inside
  cases inside
  refine .goesOn old ?_
  by_cases done : job.state.finished = true
  · rw [same done, if_pos done] at settled
    subst settled
    exact .close done
  · rw [if_neg (by rwa [finished])] at settled
    subst settled
    refine .fail fails (by simpa using done) request (SequenceState.closed_finished rfl) ?_
    exact SequenceState.closed_reason _

/-- One job of the batch changes. -/
theorem staged_around {earlier later : List Job} {job after : Job} (layout : Layout s)
    (there : s'.jobs[k]? = some job') (here : s.jobs = earlier ++ job :: later)
    (jobs : s'.jobs = earlier ++ after :: later)
    (others : ∀ j ∈ s.jobs, j.state.seq ≠ job.state.seq → s'.seat T past j = s.seat T past j)
    (changed : job' = after → Stage w A s (s.seat T past job) (s'.seat T past after)) :
    Staged w T past A s s' k job' := by
  have distinct := layout.nodup
  rw [here] at distinct
  obtain ⟨notEarlier, notLater⟩ := seqs_around distinct
  have related : List.Forall₂ (fun j j' => (j' = j ∧ j.state.seq ≠ job.state.seq) ∨ (j = job ∧ j' = after))
      s.jobs s'.jobs := by
    rw [here, jobs]
    refine List.rel_append (List.forall₂_same.mpr fun j inside => .inl ⟨rfl, notEarlier j inside⟩) ?_
    exact .cons (.inr ⟨rfl, rfl⟩) (List.forall₂_same.mpr fun j inside => .inl ⟨rfl, notLater j inside⟩)
  obtain ⟨old, was, same | ⟨rfl, rfl⟩⟩ := Lists.getElem?_of_forall₂ related there
  · obtain ⟨rfl, other⟩ := same
    refine .goesOn was ?_
    rw [others job' (List.mem_of_getElem? was) other]
    exact .stay fun _ => ⟨rfl, rfl⟩
  · exact .goesOn was (changed rfl)

theorem Move.staged {q q' : RequestQueue} (move : Move w config s q s' q') (layout : Layout s) (isOver : s.Over)
    (attending : s.Attending) (honest : Continuous.Honest T past A s.port) (sided : s.Sided k)
    (there : s'.jobs[k]? = some job') : Staged w T past A s s' k job' := by
  have sliced : ∀ {i}, s.pc = .prefill i → i < s.jobs.length → ∀ {job'},
      (s.jobs.take i ++ (buildSlice w.caps.nBatch 0 false (s.jobs.drop i)).1)[k]? = some job' →
      ∃ job, s.jobs[k]? = some job ∧ Served job job' (itemsOf job.state.seq
        (buildSlice w.caps.nBatch 0 false (s.jobs.drop i)).2.1) := by
    intro i pc more job' there
    obtain ⟨job, old, served⟩ := sliced_serves layout.nodup more w.caps.nBatch there
    exact ⟨job, old, served (sided.fresh pc old)⟩
  -- the job at the head of the waiting ones, and the others
  have waits : ∀ {leave stay slot slots step steps}, AcceptLoop leave stay →
      s.pc = stay (slot :: slots) (step :: steps) → slot ∉ slots := by
    intro leave stay slot slots step steps loop pc
    have once := attending.nodup layout
    rw [pc, loop.waiting_stay] at once
    exact (List.nodup_cons.mp once).1
  cases move with
  | collect pc | finish pc | made pc | prefillEnd pc | decodeEnd pc =>
    exact staged_same there rfl (by rw [pc]; rfl) rfl
  | form | deliverEnd => cases there
  | makeCrash pc begun =>
    refine staged_same there rfl (by rw [pc]; rfl) (T.contents_begin_error begun ?_)
    have place := seq_of_place layout there
    have inside : k < s.jobs.length := (List.getElem?_eq_some_iff.mp there).1
    show job'.state.seq ≠ s.jobs.length
    omega
  | @makeFailed request rest job port pc begun made failed =>
    subst made
    refine staged_join layout there rfl pc rfl ?_ ?_
    · intro slot other
      rw [T.contents_note _ _ (Event.ghost_stat _ _), T.contents_begin begun, Kv.begin_other other]
    · intro last same
      subst last
      have begins : T.contents past (port.note (.stat .admitted 1)) s.jobs.length =
          some { params := request.spec.sampling, cells := [] } := by
        rw [T.contents_note _ _ (Event.ghost_stat _ _), T.contents_begin begun, Kv.begin_self]
      have made : job' = { Scheduler.newJob w request s.jobs.length with blocks := {} } := same
      exact .enters pc rfl made rfl begins
  | @make request rest job port table blocks pc begun made unfinished grown =>
    subst made
    refine staged_join layout there rfl pc rfl ?_ ?_
    · intro slot other
      rw [T.contents_note _ _ (Event.ghost_stat _ _), T.contents_begin begun, Kv.begin_other other]
    · intro last same
      subst last
      refine .enters pc rfl same rfl ?_
      rw [T.contents_note _ _ (Event.ghost_stat _ _), T.contents_begin begun, Kv.begin_self]
  | @makeFull request rest job port pc begun made unfinished full =>
    subst made
    refine staged_join layout there rfl pc rfl ?_ ?_
    · intro slot other
      rw [T.contents_begin begun, Kv.begin_other other]
    · intro last same
      subst last
      exact .full pc rfl unfinished full same
  | prefillSkip pc more those nothing =>
    subst those
    obtain ⟨job, old, served⟩ := sliced pc more there
    rw [nothing, itemsOf_nil] at served
    cases served
    exact .goesOn old (.stay fun _ => ⟨by rw [pc]; rfl, rfl⟩)
  | @prefill i slice steps port pc more those something returned =>
    subst those
    obtain ⟨job, old, served⟩ := sliced pc more there
    refine staged_serve honest old served returned (fun _ => by rw [pc]; rfl) rfl fun slot => ?_
    rw [← buildSlice_submitted]
    rfl
  | decode pc those some returned =>
    subst those
    have served := decodes_serve layout.nodup (List.mem_of_getElem? there) (sided.through pc there)
    refine staged_serve honest there served returned (fun _ => by rw [pc]; rfl) rfl fun slot => ?_
    rw [decodes_sampling]
    rfl
  | @prefillFail i slice message port pc more those something threw =>
    subst those
    have fails : s.Fails w := .slice pc something threw
    obtain ⟨job₁, inside, _⟩ := Lists.getElem?_of_forall₂ (settleAll_settles message _ port) there
    obtain ⟨job, old, served⟩ := sliced pc more inside
    exact staged_fail fails there old inside served.idle_of_finished served.frame.1 served.request_eq
  | @decodeFail running message port pc those some threw =>
    subst those
    obtain ⟨job, inside, _⟩ := Lists.getElem?_of_forall₂ (settleAll_settles message s.jobs port) there
    exact staged_fail (.lockstep pc threw) there inside inside (fun _ => rfl) rfl rfl
  | acceptFail loop pc =>
    obtain ⟨job, inside, _⟩ := Lists.getElem?_of_forall₂ (settleAll_settles _ s.jobs s.port) there
    exact staged_fail (.short loop pc) there inside inside (fun _ => rfl) rfl rfl
  | acceptEnd loop pc =>
    refine staged_same there rfl ?_ rfl
    rw [pc, loop.due_leave, loop.due_stay]
    rfl
  | acceptStray loop pc missing =>
    refine staged_same there rfl ?_ rfl
    have other : _ ≠ job'.state.seq := fun same =>
      missing (mem_seqs.mpr ⟨job', List.mem_of_getElem? there, same.symm⟩)
    rw [pc, loop.due_stay, loop.due_stay, dueIn, if_neg other, List.tail_cons]
  | @acceptGoOn leave stay slots step steps earlier job later state port loop pc here accepted =>
    refine staged_around layout there here rfl ?_ fun _ => ?_
    · intro j _ other
      simp only [seat, pc, loop.due_stay, dueIn, if_neg (Ne.symm other), List.tail_cons,
        T.contents_accept accepted]
    · have was : s.seat T past job = ⟨job, some (some step), T.contents past s.port job.state.seq⟩ := by
        rw [seat, pc, loop.due_stay, dueIn, if_pos rfl]
        rfl
      have same := (SequenceState.accept_same accepted).seq
      rw [was]
      simp only [seat, same, loop.due_stay, dueIn_of_not_mem (waits loop pc), T.contents_accept accepted]
      exact .goOn accepted
  | @acceptFinish leave stay slots step steps earlier job later state port finished loop pc here accepted
      notified =>
    subst notified
    have same := (SequenceState.accept_same accepted).trans (SequenceState.finish_same (w := w) state port)
    refine staged_around layout there here rfl ?_ fun _ => ?_
    · intro j _ other
      simp only [seat, pc, loop.due_stay, dueIn, if_neg (Ne.symm other), List.tail_cons, T.contents_release,
        T.contents_finish, T.contents_accept accepted]
      rw [Kv.release_other (by rw [same.seq]; exact other)]
    · have was : s.seat T past job = ⟨job, some (some step), T.contents past s.port job.state.seq⟩ := by
        rw [seat, pc, loop.due_stay, dueIn, if_pos rfl]
        rfl
      rw [was]
      simp only [seat, same.seq, loop.due_stay, dueIn_of_not_mem (waits loop pc)]
      rw [SequenceState.finish_state]
      exact .stop accepted
  | @deliver earlier job later finished pc here notified =>
    subst notified
    have idle : ∀ slot, s.pc.due slot = none := fun slot => by rw [pc]; rfl
    refine staged_around layout there here rfl ?_ fun _ => ?_
    · intro j _ _
      simp only [seat, idle, T.contents_deliver, T.contents_note _ _ (Event.ghost_stat _ _), T.contents_finish]
      rfl
    · simp only [seat, SequenceState.finish_state]
      exact .close (isOver earlier.length pc job (by rw [here]; simp))

end Stages

/-! ## Keeping pace -/

/-- `Lockstep` for what may be sampled, with how the jobs that have ended came to their end. -/
structure Paced (w : World σ) (S : Sampler) (T : Tracker w .token) (past : List Event) (s : Static σ) :
    Prop where
  once : s.pc.waiting.Nodup
  side : ∀ (k : Nat) job, s.jobs[k]? = some job → job.state.finished = false →
    s.pc.Side k job.state.prefilling
  seats : ∀ job ∈ s.jobs, (s.seat T past job).Fair w S

end Static

namespace Seat.Fair

variable {σ : Type} {w : World σ} {S : Sampler} {seat seat' : Seat Token} {s : Static σ}

theorem stage (fair : seat.Fair w S)
    (stage : Static.Stage w (fun slot => S slot.params slot.cells) s seat seat') : seat'.Fair w S := by
  cases stage with
  | stay same => exact fair.congr rfl rfl same
  | @serve job job' items due held served asked answer =>
    cases finished : job.state.finished with
    | true =>
      -- nothing is submitted for a job that has ended
      have same : job' = job := served.idle_of_finished finished
      subst same
      refine fair.congr rfl rfl fun unfinished => ?_
      exact absurd (finished.symm.trans unfinished) (by simp)
    | false =>
      obtain ⟨tokens, cells, running⟩ := fair.running finished
      obtain ⟨cells', next⟩ := running.serve served asked fun step due held => answer step due _ held
      exact .of_running (served.frame.1.trans finished) next
  | goOn accepted => exact fair.goOn (SequenceState.accept_accepts accepted)
  | @stop job step state port port' held held' accepted =>
    have stopped : Seat.Fair w S ⟨{ job with state := (state.finish w port).1 }, none, held'⟩ :=
      fair.stop (SequenceState.accept_accepts accepted) port
    rwa [SequenceState.finish_state] at stopped
  | fail fails unfinished request ended reason => exact .inl (.of_ended ended (.stopped (.inl reason)))
  | @close job blocks due due' held held' finished =>
    have closed : Seat.Fair w S ⟨{ job with state := job.state.closed }, due', held'⟩ := by
      rcases fair with exact_ | ⟨_, reason⟩
      · exact .inl (.of_ended (SequenceState.closed_finished finished) (exact_.ended finished).close)
      · exact .inr ⟨SequenceState.closed_finished finished, (SequenceState.closed_reason _).trans reason⟩
    exact closed.congr rfl rfl fun _ => ⟨rfl, rfl⟩

end Seat.Fair

namespace Static

variable {σ : Type} {w : World σ} {config : SchedulerConfig} {T : Tracker w .token} {S : Sampler}
variable {past : List Event} {s s' : Static σ} {k : Nat} {job' : Job}

/-- A job that enters has a fair seat, and one that is there keeps it. -/
theorem Staged.fair (staged : Staged w T past (fun slot => S slot.params slot.cells) s s' k job')
    (fair : ∀ job, s.jobs[k]? = some job → (s.seat T past job).Fair w S) : (s'.seat T past job').Fair w S := by
  cases staged with
  | goesOn old stage => exact (fair _ old).stage stage
  | @enters request rest table pc last made due held =>
    subst made
    have entered : Seat.Fair w S ⟨Scheduler.newJob w request k, none,
        some { params := request.spec.sampling, cells := [] }⟩ := .inl (.enter request k)
    refine entered.congr rfl rfl fun _ => ?_
    simp only [seat, Scheduler.newJob_seq]
    exact ⟨due, held⟩
  | full pc last unfinished full made =>
    subst made
    exact .inr ⟨rfl, rfl⟩

namespace Paced

theorem lockstep (paced : s.Paced w S T past) : s.Lockstep w T past where
  once := paced.once
  side := paced.side
  running job member unfinished := by
    obtain ⟨tokens, cells, running⟩ := (paced.seats job member).running unfinished
    exact ⟨tokens, cells, running.any⟩

theorem empty (once : s.pc.waiting.Nodup) (none : s.jobs = []) : s.Paced w S T past where
  once := once
  side k job here := by simp [none] at here
  seats job member := by simp [none] at member

/-- The log moves from the port into the history. -/
theorem quiet (before : s.Paced w S T past) : s.quiet.Paced w S T (past ++ s.port.log) where
  once := before.once
  side := before.side
  seats job member := by
    rw [seat_quiet]
    exact before.seats job member

theorem move {q q' : RequestQueue} (before : s.Paced w S T past) (layout : Layout s) (isOver : s.Over)
    (attending : s.Attending)
    (honest : Continuous.Honest T past (fun slot => S slot.params slot.cells) s.port)
    (prompts : ∀ job ∈ s'.jobs, ¬ job.request.Refused w → w.tokenize job.request.spec.prompt true ≠ [])
    (move : Move w config s q s' q') : s'.Paced w S T past where
  once := (attending.move layout move).nodup (layout.move move)
  side k := Sided.move (before.side k) (fun job here => prompts job (List.mem_of_getElem? here)) move
  seats job member := by
    obtain ⟨k, there⟩ := List.mem_iff_getElem?.mp member
    have staged := move.staged layout isOver attending honest (before.side k) there
    exact staged.fair fun job here => before.seats job (List.mem_of_getElem? here)

end Paced

end Static

namespace Server

variable {σ : Type} {w : World σ} {config : SchedulerConfig} {capacity : Nat} {world : σ}
variable {past : List Event} {s : Server (Static σ)}

theorem paced_run {S : Sampler} (T : Tracker w .token)
    (honest : ∀ past port, Continuous.Honest T past (fun slot => S slot.params slot.cells) port)
    (run : (static w config capacity world).Run past s)
    (prompts : ∀ r ∈ s.accepted, ¬ r.Refused w → w.tokenize r.spec.prompt true ≠ []) :
    s.thread.Paced w S T past := by
  refine static_thread_invariant ?_ ?_ (accepting_each run.guarded_true prompts)
  · exact .empty .nil rfl
  · rintro past s thread queue run settled paced move ⟨_, prompts⟩
    have isOver := over_run run.of_guarded
    refine Static.Paced.quiet (paced.move settled.layout isOver (attending_run run.of_guarded)
      (honest past s.thread.port) (fun job member => ?_) move)
    apply prompts
    apply static_known_run run.of_guarded
    apply move.requests
    apply List.mem_append_right
    exact List.mem_append_right _ (List.mem_map_of_mem member)

end Server

end MicroVllm
