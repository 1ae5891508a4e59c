import MicroVllm.Scheduler.Moves
import MicroVllm.Scheduler.Static

/-! # What a step of the static loop can do

The counterpart of `Continuous.Move` for `run_static` and `run_batch`.  A job sits in the
slot that is its place in the batch, so no two jobs of a batch share one.
-/

namespace MicroVllm

namespace Static

variable {σ : Type} {w : World σ} {config : SchedulerConfig}

/-- The two accept loops: where each goes when it is through, and how it goes on. -/
inductive AcceptLoop : StaticPc → (List Nat → List GenStep → StaticPc) → Prop where
  | prefill (i : Nat) : AcceptLoop (.prefill i) (.acceptPrefill i)
  | decode : AcceptLoop .decode .acceptDecode

/-- The tokens a job reserves room for: prompt and generation, as a 32-bit sum. -/
def wholeLength (job : Job) : Nat :=
  toUint32 (job.state.usage.promptTokens + job.request.spec.maxTokens.toNat)

inductive Move (w : World σ) (config : SchedulerConfig) :
    Static σ → RequestQueue → Static σ → RequestQueue → Prop where
  -- forming a batch
  | collect {s q batch request rest} (pc : s.pc = .collect batch) (front : q.queue = request :: rest) :
      Move w config s q { s with pc := .collect (batch ++ [request]) } { q with queue := rest }
  | finish {s q} (pc : s.pc = .collect []) (empty : q.queue = []) (closed : q.closed = true) :
      Move w config s q { s with pc := .done } q
  | form {s q batch} (pc : s.pc = .collect batch) (some : batch ≠ []) :
      Move w config s q { s with jobs := [], pc := .make batch } q
  -- building its jobs
  | made {s q} (pc : s.pc = .make []) : Move w config s q { s with pc := .prefill 0 } q
  | makeCrash {s q request rest message port} (pc : s.pc = .make (request :: rest))
      (begun : s.port.beginSequence w s.jobs.length request.spec.sampling = (.error message, port)) :
      Move w config s q { s with port := port, pc := .crashed message } q
  | makeFailed {s q request rest job port} (pc : s.pc = .make (request :: rest))
      (begun : s.port.beginSequence w s.jobs.length request.spec.sampling = (.ok (), port))
      (made : job = Scheduler.newJob w request s.jobs.length) (failed : job.state.finished = true) :
      Move w config s q
        { s with
          port := port.note (.stat .admitted 1)
          jobs := s.jobs ++ [job]
          pc := .make rest } q
  | make {s q request rest job port table blocks} (pc : s.pc = .make (request :: rest))
      (begun : s.port.beginSequence w s.jobs.length request.spec.sampling = (.ok (), port))
      (made : job = Scheduler.newJob w request s.jobs.length) (unfinished : job.state.finished = false)
      (grown : job.blocks.ensureCapacity (wholeLength job) s.blocks = some (table, blocks)) :
      Move w config s q
        { s with
          port := port.note (.stat .admitted 1)
          blocks := blocks
          jobs := s.jobs ++ [{ job with blocks := table }]
          pc := .make rest } q
  | makeFull {s q request rest job port} (pc : s.pc = .make (request :: rest))
      (begun : s.port.beginSequence w s.jobs.length request.spec.sampling = (.ok (), port))
      (made : job = Scheduler.newJob w request s.jobs.length) (unfinished : job.state.finished = false)
      (full : job.blocks.ensureCapacity (wholeLength job) s.blocks = none) :
      Move w config s q
        { s with
          port := port
          jobs := s.jobs ++ [{ job with state := job.state.fail noRoomMessage .contextOverflow }]
          pc := .make rest } q
  -- prefill, slice by slice
  | prefillEnd {s q i} (pc : s.pc = .prefill i) (through : s.jobs.length ≤ i) :
      Move w config s q { s with pc := .decode } q
  | prefillSkip {s q i slice} (pc : s.pc = .prefill i) (more : i < s.jobs.length)
      (sliced : buildSlice w.caps.nBatch 0 false (s.jobs.drop i) = slice) (nothing : slice.2.1 = []) :
      Move w config s q
        { s with jobs := s.jobs.take i ++ slice.1, pc := .prefill (i + slice.2.2.2) } q
  | prefill {s q i slice steps port} (pc : s.pc = .prefill i) (more : i < s.jobs.length)
      (sliced : buildSlice w.caps.nBatch 0 false (s.jobs.drop i) = slice) (something : slice.2.1 ≠ [])
      (returned : s.port.decode w slice.2.1 = (.ok steps, port)) :
      Move w config s q
        { s with
          port := port
          jobs := s.jobs.take i ++ slice.1
          nSteps := steps.length
          pc := .acceptPrefill (i + slice.2.2.2) slice.2.2.1 steps } q
  | prefillFail {s q i slice message port} (pc : s.pc = .prefill i) (more : i < s.jobs.length)
      (sliced : buildSlice w.caps.nBatch 0 false (s.jobs.drop i) = slice) (something : slice.2.1 ≠ [])
      (threw : s.port.decode w slice.2.1 = (.error message, port)) :
      Move w config s q
        ({ s with port := port, jobs := s.jobs.take i ++ slice.1 }.failBatch w message) q
  -- the lockstep loop
  | decodeEnd {s q} (pc : s.pc = .decode) (all : ∀ job ∈ s.jobs, job.state.finished = true) :
      Move w config s q { s with pc := .deliver 0 } q
  | decode {s q running steps port} (pc : s.pc = .decode)
      (those : running = s.jobs.filter fun job => !job.state.finished) (some : running ≠ [])
      (returned : s.port.decode w (running.map fun job => job.state.decodeItem) = (.ok steps, port)) :
      Move w config s q
        { s with port := port, nSteps := steps.length, pc := .acceptDecode (seqs running) steps } q
  | decodeFail {s q running message port} (pc : s.pc = .decode)
      (those : running = s.jobs.filter fun job => !job.state.finished) (some : running ≠ [])
      (threw : s.port.decode w (running.map fun job => job.state.decodeItem) = (.error message, port)) :
      Move w config s q ({ s with port := port }.failBatch w message) q
  -- accepting the sampled tokens, in either loop
  | acceptEnd {s q leave stay steps} (loop : AcceptLoop leave stay) (pc : s.pc = stay [] steps) :
      Move w config s q { s with pc := leave } q
  | acceptFail {s q leave stay slot slots} (loop : AcceptLoop leave stay)
      (pc : s.pc = stay (slot :: slots) []) :
      Move w config s q (s.failBatch w (Continuous.outOfRange s.nSteps)) q
  | acceptStray {s q leave stay slot slots step steps} (loop : AcceptLoop leave stay)
      (pc : s.pc = stay (slot :: slots) (step :: steps)) (missing : slot ∉ seqs s.jobs) :
      Move w config s q { s with pc := stay slots steps } q
  | acceptGoOn {s q leave stay slots step steps before job after state port}
      (loop : AcceptLoop leave stay) (pc : s.pc = stay (job.state.seq :: slots) (step :: steps))
      (here : s.jobs = before ++ job :: after)
      (accepted : job.state.accept w step s.port = (true, state, port)) :
      Move w config s q
        { s with
          port := port
          jobs := before ++ { job with state := state } :: after
          pc := stay slots steps } q
  | acceptFinish {s q leave stay slots step steps before job after state port finished}
      (loop : AcceptLoop leave stay) (pc : s.pc = stay (job.state.seq :: slots) (step :: steps))
      (here : s.jobs = before ++ job :: after)
      (accepted : job.state.accept w step s.port = (false, state, port))
      (notified : state.finish w port = finished) :
      Move w config s q
        { s with
          port := finished.2.releaseSequence w finished.1.seq
          jobs := before ++ { job with state := finished.1 } :: after
          pc := stay slots steps } q
  -- delivery
  | deliver {s q before job after finished} (pc : s.pc = .deliver before.length)
      (here : s.jobs = before ++ job :: after) (notified : job.state.finish w s.port = finished) :
      Move w config s q
        { s with
          blocks := s.blocks.free job.blocks.blocks
          port := Scheduler.deliver { job with state := finished.1, blocks := {} }
            (finished.2.note (.stat .completed 1))
          jobs := before ++ { job with state := finished.1, blocks := {} } :: after
          pc := .deliver (before.length + 1) } q
  | deliverEnd {s q i} (pc : s.pc = .deliver i) (through : s.jobs.length ≤ i) :
      Move w config s q
        { s with
          port := s.port.note (.stat .kvBlocksUsed s.blocks.usedBlocks)
          jobs := []
          pc := .collect [] } q

/-! ## Slots -/

/-- A job's slot is its place in the batch. -/
def Layout (s : Static σ) : Prop := seqs s.jobs = List.range s.jobs.length

theorem Layout.nodup {s : Static σ} (layout : Layout s) : (seqs s.jobs).Nodup := by
  rw [layout]
  exact List.nodup_range

/-! ## Every step is a move -/

theorem collect_move {s s' : Static σ} {q q' : RequestQueue} {batch : List Request}
    (pc : s.pc = .collect batch) (stepped : s.collect config batch q = some (s', q')) :
    Move w config s q s' q' := by
  cases batch with
  | nil =>
    simp only [collect, RequestQueue.pop] at stepped
    cases front : q.queue with
    | nil =>
      cases closed : q.closed with
      | false => simp [front, closed] at stepped
      | true =>
        simp only [front, closed, if_true, Option.some.injEq, Prod.mk.injEq] at stepped
        obtain ⟨rfl, rfl⟩ := stepped
        exact .finish pc front closed
    | cons request rest =>
      simp only [front, Option.some.injEq, Prod.mk.injEq] at stepped
      obtain ⟨rfl, rfl⟩ := stepped
      exact .collect pc front
  | cons first others =>
    simp only [collect, RequestQueue.tryPop] at stepped
    split at stepped
    · cases front : q.queue with
      | nil =>
        simp only [front, Option.some.injEq, Prod.mk.injEq] at stepped
        obtain ⟨rfl, rfl⟩ := stepped
        exact .form pc (by simp)
      | cons request rest =>
        simp only [front, Option.some.injEq, Prod.mk.injEq] at stepped
        obtain ⟨rfl, rfl⟩ := stepped
        exact .collect pc front
    · simp only [Option.some.injEq, Prod.mk.injEq] at stepped
      obtain ⟨rfl, rfl⟩ := stepped
      exact .form pc (by simp)

theorem make_move {s : Static σ} {q : RequestQueue} {requests : List Request}
    (pc : s.pc = .make requests) : Move w config s q (s.make w requests) q := by
  cases requests with
  | nil => exact .made pc
  | cons request rest =>
    simp only [make, Scheduler.makeJob]
    cases begun : s.port.beginSequence w s.jobs.length request.spec.sampling with
    | mk result port =>
      cases result with
      | error message => exact .makeCrash pc begun
      | ok =>
        simp only [reserveJob]
        split
        · rename_i failed
          exact .makeFailed pc begun rfl failed
        · rename_i unfinished
          have unfinished : (Scheduler.newJob w request s.jobs.length).state.finished = false := by
            simpa using unfinished
          split
          · rename_i table blocks grown
            exact .make pc begun rfl unfinished grown
          · rename_i full
            exact .makeFull pc begun rfl unfinished full

theorem prefill_move {s : Static σ} {q : RequestQueue} {i : Nat} (pc : s.pc = .prefill i) :
    Move w config s q (s.prefill w i) q := by
  simp only [prefill]
  split
  · rename_i more
    split
    · rename_i nothing
      exact .prefillSkip pc more rfl nothing
    · rename_i something
      cases decoded : s.port.decode w (buildSlice w.caps.nBatch 0 false (s.jobs.drop i)).2.1 with
      | mk result port =>
        cases result with
        | ok steps => exact .prefill pc more rfl something decoded
        | error message => exact .prefillFail pc more rfl something decoded
  · rename_i through
    exact .prefillEnd pc (by omega)

theorem decode_move {s : Static σ} {q : RequestQueue} (pc : s.pc = .decode) :
    Move w config s q (s.decode w) q := by
  simp only [decode]
  split
  · rename_i nobody
    refine .decodeEnd pc ?_
    intro job member
    have out := List.filter_eq_nil_iff.mp nobody job member
    simpa using out
  · rename_i somebody
    cases decoded : s.port.decode w
        ((s.jobs.filter fun job => !job.state.finished).map fun job => job.state.decodeItem) with
    | mk result port =>
      cases result with
      | ok steps => exact .decode pc rfl somebody decoded
      | error message => exact .decodeFail pc rfl somebody decoded

theorem acceptStep_move {s : Static σ} {q : RequestQueue} {leave : StaticPc}
    {stay : List Nat → List GenStep → StaticPc} {slots : List Nat} {steps : List GenStep}
    (nodup : (seqs s.jobs).Nodup) (loop : AcceptLoop leave stay) (pc : s.pc = stay slots steps) :
    Move w config s q (s.acceptStep w leave stay slots steps) q := by
  cases slots with
  | nil => exact .acceptEnd loop pc
  | cons slot slots =>
    cases steps with
    | nil => exact .acceptFail loop pc
    | cons step steps =>
      simp only [acceptStep]
      cases found : findJob slot s.jobs with
      | none => exact .acceptStray loop pc (findJob_eq_none found)
      | some job =>
        obtain ⟨before, after, here, rfl⟩ := findJob_eq_some found
        have put : ∀ job', job'.state.seq = job.state.seq →
            setJob job' s.jobs = before ++ job' :: after := by
          intro job' same
          rw [here]
          exact setJob_around _ _ (here ▸ nodup) same
        obtain ⟨goesOn, state, port, accepted⟩ :
            ∃ goesOn state port, job.state.accept w step s.port = (goesOn, state, port) :=
          ⟨_, _, _, rfl⟩
        have sameSeq := (SequenceState.accept_same accepted).seq
        cases goesOn with
        | true =>
          simp only [acceptJob, accepted, put { job with state := state } sameSeq]
          exact .acceptGoOn loop pc here accepted
        | false =>
          have done := put { job with state := (state.finish w port).1 }
            ((SequenceState.finish_same (w := w) state port).seq.trans sameSeq)
          simp only [acceptJob, accepted, done]
          exact .acceptFinish loop pc here accepted rfl

theorem deliver_move {s : Static σ} {q : RequestQueue} {i : Nat} (pc : s.pc = .deliver i) :
    Move w config s q (s.deliver w i) q := by
  simp only [deliver]
  cases here : s.jobs[i]? with
  | some job =>
    obtain ⟨inside, same⟩ := List.getElem?_eq_some_iff.mp here
    have split : s.jobs = s.jobs.take i ++ job :: s.jobs.drop (i + 1) := by
      rw [← same, List.cons_getElem_drop_succ, List.take_append_drop]
    have length : (s.jobs.take i).length = i := List.length_take_of_le (by omega)
    have move : Move w config s q _ q := .deliver (by rw [length]; exact pc) split rfl
    rw [length] at move
    simpa only [List.set_eq_take_append_cons_drop, inside, if_true] using move
  | none => exact .deliverEnd pc (List.getElem?_eq_none_iff.mp here)

theorem turn_move {s s' : Static σ} {q q' : RequestQueue} (layout : Layout s)
    (turned : s.turn w config q = some (s', q')) : Move w config s q s' q' := by
  have nodup : (seqs s.jobs).Nodup := layout.nodup
  simp only [turn] at turned
  split at turned
  case h_1 pc => exact collect_move pc turned
  case h_2 pc => cases turned; exact make_move pc
  case h_3 pc => cases turned; exact prefill_move pc
  case h_4 pc => cases turned; exact acceptStep_move nodup (.prefill _) pc
  case h_5 pc => cases turned; exact decode_move pc
  case h_6 pc => cases turned; exact acceptStep_move nodup .decode pc
  case h_7 pc => cases turned; exact deliver_move pc
  case h_8 => cases turned
  case h_9 => cases turned

theorem step_move {s t : Static σ} {q q' : RequestQueue} {events : List Event} (layout : Layout s)
    (stepped : s.step w config q = some (events, t, q')) :
    ∃ s', Move w config s q s' q' ∧ events = s'.port.log ∧ t = s'.quiet := by
  simp only [step, Option.map_eq_some_iff] at stepped
  obtain ⟨⟨s', q''⟩, turned, same⟩ := stepped
  cases same
  exact ⟨s', turn_move layout turned, rfl, rfl⟩

/-! ## What the loops over the batch do to its jobs

Every fact about the jobs of a slice, or of a batch that failed, is one about a single job. -/

section Loops

variable {R : Job → Job → Prop}

/-- A slice leaves a job as it is or submits what is left of its prompt. -/
theorem buildSlice_relates (refl : ∀ job, R job job)
    (submits : ∀ job, job.state.finished = false → R job { job with state := job.state.prefillItem.2 })
    (nBatch tokens : Nat) (started : Bool) (jobs : List Job) :
    List.Forall₂ R jobs (buildSlice nBatch tokens started jobs).1 := by
  induction jobs generalizing tokens started with
  | nil => exact .nil
  | cons job jobs ih =>
    simp only [buildSlice]
    split
    · -- it has failed already
      exact .cons (refl job) (ih _ _)
    · rename_i unfinished
      split
      · -- the slice is full
        exact List.forall₂_same.mpr fun job _ => refl job
      · exact .cons (submits job (by simpa using unfinished)) (ih _ _)

/-- The same for the whole batch: nothing happens before the place the slice starts from. -/
theorem sliced_relates (refl : ∀ job, R job job)
    (submits : ∀ job, job.state.finished = false → R job { job with state := job.state.prefillItem.2 })
    (i nBatch : Nat) (jobs : List Job) :
    List.Forall₂ R jobs (jobs.take i ++ (buildSlice nBatch 0 false (jobs.drop i)).1) := by
  have earlier : List.Forall₂ R (jobs.take i) (jobs.take i) := List.forall₂_same.mpr fun job _ => refl job
  have both : List.Forall₂ R (jobs.take i ++ jobs.drop i) _ :=
    List.rel_append earlier (buildSlice_relates refl submits nBatch 0 false (jobs.drop i))
  rwa [List.take_append_drop] at both

/-- The failure path fails who is running and notifies all. -/
theorem settleAll_relates (message : String)
    (settles : ∀ job port, R job { job with
      state := ((if job.state.finished then job.state else job.state.fail message).finish w port).1 })
    (jobs : List Job) (port : Port σ) : List.Forall₂ R jobs (settleAll w message jobs port).1 := by
  induction jobs generalizing port with
  | nil => exact .nil
  | cons job jobs ih =>
    simp only [settleAll]
    exact .cons (settles job port) (ih _)

variable {α : Type} {f : Job → α}

/-- What submitting a prompt does not change. -/
theorem map_sliced (same : ∀ job, f { job with state := job.state.prefillItem.2 } = f job) (i nBatch : Nat)
    (jobs : List Job) : (jobs.take i ++ (buildSlice nBatch 0 false (jobs.drop i)).1).map f = jobs.map f := by
  apply Lists.map_eq_of_forall₂
  apply sliced_relates
  · exact fun _ => rfl
  · exact fun job _ => same job

/-- What failing a job and notifying its sink do not change. -/
theorem map_settleAll (message : String)
    (same : ∀ job port, f { job with
      state := ((if job.state.finished then job.state else job.state.fail message).finish w port).1 } = f job)
    (jobs : List Job) (port : Port σ) : (settleAll w message jobs port).1.map f = jobs.map f := by
  apply Lists.map_eq_of_forall₂
  exact settleAll_relates message same jobs port

end Loops

/-! ## Slots along a run -/

theorem seqs_sliced (i nBatch : Nat) (jobs : List Job) :
    seqs (jobs.take i ++ (buildSlice nBatch 0 false (jobs.drop i)).1) = seqs jobs :=
  map_sliced (fun _ => rfl) i nBatch jobs

theorem seqs_settleAll (message : String) (jobs : List Job) (port : Port σ) :
    seqs (settleAll w message jobs port).1 = seqs jobs := by
  apply map_settleAll message
  intro job port
  rw [(SequenceState.finish_same (w := w) _ _).seq]
  split <;> rfl

theorem length_of_seqs {jobs jobs' : List Job} (same : seqs jobs' = seqs jobs) :
    jobs'.length = jobs.length := by
  simpa [seqs] using congrArg List.length same

theorem Layout.of_same {s s' : Static σ} (layout : Layout s) (same : seqs s'.jobs = seqs s.jobs) :
    Layout s' := by
  unfold Layout
  rw [same, length_of_seqs same]
  exact layout

theorem Layout.grow {s s' : Static σ} {job : Job} (layout : Layout s)
    (jobs : s'.jobs = s.jobs ++ [job]) (slot : job.state.seq = s.jobs.length) : Layout s' := by
  unfold Layout at layout ⊢
  simp [jobs, layout, slot, List.range_succ]

theorem Layout.move {s s' : Static σ} {q q' : RequestQueue} (layout : Layout s)
    (move : Move w config s q s' q') : Layout s' := by
  cases move with
  | collect | finish | made | makeCrash | prefillEnd | decodeEnd | decode | acceptEnd | acceptStray =>
    exact layout.of_same rfl
  | form | deliverEnd => rfl
  | makeFailed pc begun made => exact layout.grow rfl (by simp [made])
  | make pc begun made => exact layout.grow rfl (by simp [made])
  | makeFull pc begun made =>
    exact layout.grow rfl (by simp [made, SequenceState.fail, SequenceState.stopWith])
  | prefillSkip pc more sliced | prefill pc more sliced =>
    subst sliced
    exact layout.of_same (seqs_sliced _ _ _)
  | prefillFail pc more sliced =>
    subst sliced
    exact layout.of_same ((seqs_settleAll _ _ _).trans (seqs_sliced _ _ _))
  | decodeFail | acceptFail => exact layout.of_same (seqs_settleAll _ _ _)
  | acceptGoOn loop pc here accepted =>
    exact layout.of_same (by simp [here, (SequenceState.accept_same accepted).seq])
  | acceptFinish loop pc here accepted notified =>
    subst notified
    refine layout.of_same ?_
    simp [here, (SequenceState.finish_same (w := w) _ _).seq, (SequenceState.accept_same accepted).seq]
  | deliver pc here notified =>
    subst notified
    exact layout.of_same (by simp [here, (SequenceState.finish_same (w := w) _ _).seq])

/-! ## Delivery comes last -/

/-- Once a batch is being delivered, all its jobs have finished. -/
def Over (s : Static σ) : Prop := ∀ i, s.pc = .deliver i → ∀ job ∈ s.jobs, job.state.finished = true

theorem Over.of_pc {s : Static σ} (pc : ∀ i, s.pc ≠ .deliver i) : s.Over :=
  fun i here => absurd here (pc i)

theorem Over.failBatch (message : String) (s : Static σ) : (s.failBatch w message).Over := by
  have settled : ∀ (jobs : List Job) (port : Port σ),
      ∀ job ∈ (settleAll w message jobs port).1, job.state.finished = true := by
    intro jobs
    induction jobs with
    | nil => simp [settleAll]
    | cons job jobs ih =>
      intro port j member
      simp only [settleAll] at member
      rcases List.mem_cons.mp member with rfl | later
      · apply SequenceState.finish_finished
        split
        · assumption
        · rfl
      · exact ih _ j later
  exact fun _ _ => settled s.jobs s.port

theorem Over.move {s s' : Static σ} {q q' : RequestQueue} (isOver : s.Over) (move : Move w config s q s' q') :
    s'.Over := by
  cases move with
  | decodeEnd pc all => exact fun _ _ => all
  | prefillFail | decodeFail | acceptFail => exact .failBatch _ _
  | acceptEnd loop | acceptStray loop | acceptGoOn loop | acceptFinish loop =>
    cases loop <;> exact .of_pc (by simp)
  | @deliver before job after finished pc here notified =>
    intro i _ j member
    subst notified
    have before' := isOver before.length pc
    rw [here] at before'
    simp only [List.mem_append, List.mem_cons] at member before'
    rcases member with earlier | rfl | later
    · exact before' j (.inl earlier)
    · exact SequenceState.finish_finished (before' job (.inr (.inl rfl))) _
    · exact before' j (.inr (.inr later))
  | _ => exact .of_pc (by simp)

end Static

end MicroVllm
