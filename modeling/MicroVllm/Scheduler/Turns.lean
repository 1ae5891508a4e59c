import Mathlib.Tactic.Ring
import MicroVllm.Scheduler.Calls
import MicroVllm.Scheduler.Livelock

/-! # A call of `run_batch` returns

Every turn of the thread in a call brings it closer to its return.  What counts is what the jobs of
the batch have to go, those still to be built included; a job that waits for its step has that step
counted off already, so that a round of the lockstep loop is paid for when its batch is submitted.
The measure is a number, and so it bounds the turns a call takes, whatever the clients do meanwhile.
-/

namespace MicroVllm

namespace StaticPc

/-- The requests whose jobs are still to be built. -/
def unbuilt : StaticPc → List Request
  | .make rest => rest
  | _ => []

/-- Inside of `run_batch`. -/
def batching : StaticPc → Bool
  | .make _ | .prefill _ | .acceptPrefill .. | .decode | .acceptDecode .. | .deliver _ => true
  | .collect _ | .done | .crashed _ => false

end StaticPc

namespace Static

variable {σ : Type} {w : World σ} {config : SchedulerConfig} {s s' : Static σ} {q q' : RequestQueue}

/-! ## What is left of a call -/

/-- What the jobs have to go. -/
def jobsToGo (jobs : List Job) : Nat := (jobs.map fun job => job.state.toGo).sum

/-- What the jobs of the batch have to go, with those that are to be built. -/
def toGo (w : World σ) (s : Static σ) : Nat :=
  jobsToGo s.jobs + (s.pc.unbuilt.map fun request => 1 + request.length w).sum

def size (s : Static σ) : Nat := s.jobs.length + s.pc.unbuilt.length

/-- A bound on the turns until the call returns. -/
def left (w : World σ) (s : Static σ) : Nat :=
  match s.pc with
  | .collect _ | .done | .crashed _ => 0
  | .deliver i => s.jobs.length - i + 1
  | .make rest => (s.size + 4) * s.toGo w + (s.size + rest.length + 3) + (s.size + 1)
  | .prefill i => (s.size + 4) * s.toGo w + (s.size - i + 2) + (s.size + 1)
  | .decode => (s.size + 4) * s.toGo w + 1 + (s.size + 1)
  | .acceptPrefill _ slots _ | .acceptDecode slots _ =>
    (s.size + 4) * (s.toGo w - slots.length) + (slots.length + s.size + 3) + (s.size + 1)

/-! ## What the jobs have to go -/

@[simp] theorem jobsToGo_nil : jobsToGo [] = 0 := rfl

@[simp] theorem jobsToGo_cons (job : Job) (jobs : List Job) :
    jobsToGo (job :: jobs) = job.state.toGo + jobsToGo jobs := List.sum_cons

@[simp] theorem jobsToGo_append (jobs jobs' : List Job) :
    jobsToGo (jobs ++ jobs') = jobsToGo jobs + jobsToGo jobs' := by
  simp [jobsToGo]

theorem jobsToGo_le {jobs jobs' : List Job}
    (fewer : List.Forall₂ (fun job job' => job'.state.toGo ≤ job.state.toGo) jobs jobs') :
    jobsToGo jobs' ≤ jobsToGo jobs := by
  induction fewer with
  | nil => exact Nat.le_refl _
  | cons head _ ih =>
    rw [jobsToGo_cons, jobsToGo_cons]
    omega

/-- Each running job has something to go. -/
theorem length_running_le (jobs : List Job) : (running jobs).length ≤ jobsToGo jobs := by
  induction jobs with
  | nil => exact Nat.le_refl _
  | cons job jobs ih =>
    rw [running_cons, jobsToGo_cons]
    by_cases finished : job.state.finished = true
    · rw [if_pos finished]
      omega
    · have some := SequenceState.toGo_pos (by simpa using finished)
      rw [if_neg finished, List.length_cons]
      omega

/-- Submitting a prompt takes a job no further back. -/
theorem sliced_toGo (i nBatch : Nat) (jobs : List Job) :
    jobsToGo (jobs.take i ++ (buildSlice nBatch 0 false (jobs.drop i)).1) ≤ jobsToGo jobs := by
  apply jobsToGo_le
  apply sliced_relates fun _ => Nat.le_refl _
  intro job unfinished
  have after : job.state.prefillItem.2.finished = false := unfinished
  rw [SequenceState.toGo_of_unfinished after, SequenceState.toGo_of_unfinished unfinished]
  show 1 + job.state.prefillItem.2.prefillRemaining + _ ≤ _
  have fewer : job.state.prefillItem.2.prefillRemaining ≤ job.state.prefillRemaining := by
    simp only [SequenceState.prefillItem, SequenceState.takePrefillChunk, SequenceState.prefillRemaining]
    omega
  exact Nat.add_le_add_right (Nat.add_le_add_left fewer 1) _

theorem length_sliced (i nBatch : Nat) (jobs : List Job) :
    (jobs.take i ++ (buildSlice nBatch 0 false (jobs.drop i)).1).length = jobs.length :=
  length_of_seqs (seqs_sliced i nBatch jobs)

/-- A slice gets somewhere. -/
theorem buildSlice_goesOn (nBatch tokens : Nat) {jobs : List Job} (some : jobs ≠ []) :
    1 ≤ (buildSlice nBatch tokens false jobs).2.2.2 := by
  cases jobs with
  | nil => exact absurd rfl some
  | cons job jobs =>
    simp only [buildSlice]
    split
    · simp
    · simp

theorem buildSlice_submits {nBatch tokens : Nat} {started : Bool} {jobs : List Job}
    (something : (buildSlice nBatch tokens started jobs).2.1 ≠ []) :
    1 ≤ (buildSlice nBatch tokens started jobs).2.2.1.length := by
  have samples : (buildSlice nBatch tokens started jobs).2.2.1.length =
      (buildSlice nBatch tokens started jobs).2.1.length := by
    clear something
    induction jobs generalizing tokens started with
    | nil => rfl
    | cons job jobs ih =>
      simp only [buildSlice]
      split
      · exact ih
      · split
        · rfl
        · simp [ih]
  rw [samples]
  exact List.length_pos_iff.mpr something

/-- A job that is built has no more to go than was counted for it. -/
theorem toGo_newJob_le (w : World σ) (request : Request) (slot : Nat) :
    (Scheduler.newJob w request slot).state.toGo ≤ 1 + request.length w := by
  cases finished : (Scheduler.newJob w request slot).state.finished with
  | true =>
    rw [SequenceState.toGo_of_finished finished]
    exact Nat.zero_le _
  | false =>
    have spec : (Scheduler.newJob w request slot).state.spec = request.spec :=
      (Scheduler.newJob_same w request slot).spec
    rw [SequenceState.toGo_of_unfinished finished, spec, SequenceState.prefillRemaining,
      Scheduler.newJob_prompt, Request.length]
    omega

/-! ## Every turn gets on -/

/-- A batch is submitted: its steps are counted off at once. -/
theorem left_of_submit {n toGo toGo' slots : Nat} (most : toGo' ≤ toGo) (some : 1 ≤ slots)
    (within : slots ≤ toGo') : (n + 4) * (toGo' - slots) + (slots + n + 3) < (n + 4) * toGo + 1 := by
  obtain ⟨rest, rfl⟩ := Nat.exists_eq_add_of_le within
  have paid : (n + 4) * (slots + rest) ≤ (n + 4) * toGo := Nat.mul_le_mul_left _ most
  have steps : n + 3 ≤ (n + 3) * slots := Nat.le_mul_of_pos_right _ some
  rw [Nat.add_sub_cancel_left]
  calc (n + 4) * rest + (slots + n + 3) ≤ (n + 4) * rest + (slots + (n + 3) * slots) := by omega
    _ = (n + 4) * (slots + rest) := by ring
    _ < (n + 4) * toGo + 1 := by omega

/-- A job that waits gets its step. -/
theorem left_of_accept (n slots : Nat) {toGo toGo' : Nat} (less : toGo' < toGo) :
    (n + 4) * (toGo' - slots) + (slots + n + 3) < (n + 4) * (toGo - (slots + 1)) + (slots + 1 + n + 3) := by
  have fewer : toGo' - slots ≤ toGo - (slots + 1) := by omega
  have paid := Nat.mul_le_mul_left (n + 4) fewer
  omega

theorem left_stay {leave : StaticPc} {stay : List Nat → List GenStep → StaticPc} {slots : List Nat}
    {steps : List GenStep} (loop : AcceptLoop leave stay) (pc : s.pc = stay slots steps) :
    s.left w = (s.jobs.length + 4) * (jobsToGo s.jobs - slots.length) + (slots.length + s.jobs.length + 3) +
      (s.jobs.length + 1) := by
  cases loop <;> simp [left, pc, size, toGo, StaticPc.unbuilt]

/-- The failure path is the short way out. -/
theorem left_failBatch_lt {t : Static σ} (message : String) (same : t.jobs.length = s.jobs.length)
    (running : s.jobs.length + 1 < s.left w) : (t.failBatch w message).left w < s.left w := by
  have length : (t.failBatch w message).jobs.length = s.jobs.length :=
    (length_of_seqs (seqs_settleAll message t.jobs t.port)).trans same
  calc (t.failBatch w message).left w = (t.failBatch w message).jobs.length - 0 + 1 := rfl
    _ < s.left w := by omega

/-- The next job is built, and has at most as much to go as was counted for it. -/
theorem left_of_join {request : Request} {rest : List Request} {job : Job} (pc : s.pc = .make (request :: rest))
    (pc' : s'.pc = .make rest) (jobs : s'.jobs = s.jobs ++ [job])
    (counted : job.state.toGo ≤ 1 + request.length w) : s'.left w < s.left w := by
  have size : s'.size = s.size := by
    simp only [Static.size, pc, pc', StaticPc.unbuilt, jobs, List.length_append, List.length_cons,
      List.length_nil]
    omega
  have fewer : s'.toGo w ≤ s.toGo w := by
    simp only [toGo, pc, pc', StaticPc.unbuilt, jobs, jobsToGo_append, jobsToGo_cons, jobsToGo_nil,
      List.map_cons, List.sum_cons]
    omega
  have paid := Nat.mul_le_mul_left (s.size + 4) fewer
  simp only [left, pc, pc', size, List.length_cons]
  omega

theorem Move.left_lt (move : Move w config s q s' q') (layout : Layout s) (attending : s.Attending)
    (inside : s.pc.batching = true) : s'.left w < s.left w := by
  have waits : ∀ {leave stay slot slots steps}, AcceptLoop leave stay → s.pc = stay (slot :: slots) steps →
      slot ∈ running s.jobs := by
    intro leave stay slot slots steps loop pc
    rw [Attending, pc, loop.waiting_stay] at attending
    exact attending.subset List.mem_cons_self
  -- the job whose step is due is running, and gets further
  have accepts : ∀ {leave stay slots steps step before job job' after}, AcceptLoop leave stay →
      s.pc = stay (job.state.seq :: slots) (step :: steps) → s.jobs = before ++ job :: after →
      s'.pc = stay slots steps → s'.jobs = before ++ job' :: after → job'.state.toGo < job.state.toGo →
      s'.left w < s.left w := by
    intro leave stay slots steps step before job job' after loop pc here pc' jobs less
    have length : s'.jobs.length = s.jobs.length := by rw [jobs, here]; simp
    have fewer : jobsToGo s'.jobs < jobsToGo s.jobs := by
      rw [jobs, here]
      simp only [jobsToGo_append, jobsToGo_cons]
      omega
    have step := left_of_accept s.jobs.length slots.length fewer
    rw [left_stay loop pc, left_stay loop pc', length, List.length_cons]
    omega
  cases move with
  | collect pc | finish pc | form pc => simp [pc, StaticPc.batching] at inside
  | made pc =>
    simp only [left, pc, size, toGo, StaticPc.unbuilt, List.map_nil, List.sum_nil, List.length_nil]
    omega
  | makeCrash pc =>
    simp only [left, pc]
    omega
  | makeFailed pc begun made | make pc begun made =>
    subst made
    exact left_of_join pc rfl rfl (toGo_newJob_le w _ _)
  | makeFull pc =>
    refine left_of_join pc rfl rfl ?_
    rw [SequenceState.toGo_of_finished rfl]
    exact Nat.zero_le _
  | prefillEnd pc through =>
    simp only [left, pc, size, toGo, StaticPc.unbuilt, List.map_nil, List.sum_nil, List.length_nil]
    omega
  | @prefillSkip i slice pc more sliced nothing =>
    subst sliced
    have rest : s.jobs.drop i ≠ [] := by
      rw [ne_eq, List.drop_eq_nil_iff]
      omega
    have goesOn := buildSlice_goesOn w.caps.nBatch 0 rest
    have paid := Nat.mul_le_mul_left (s.jobs.length + 4) (sliced_toGo i w.caps.nBatch s.jobs)
    simp only [left, pc, size, toGo, StaticPc.unbuilt, List.map_nil, List.sum_nil, List.length_nil,
      length_sliced, Nat.add_zero]
    omega
  | @prefill i slice steps port pc more sliced something returned =>
    subst sliced
    have submitted := buildSlice_submits something
    have later : Attending _ := attending.move layout (.prefill pc more rfl something returned : Move w config s q _ q)
    have within := later.length_le.trans (length_running_le _)
    have submit := left_of_submit (n := s.jobs.length) (sliced_toGo i w.caps.nBatch s.jobs) submitted within
    simp only [left, pc, size, toGo, StaticPc.unbuilt, List.map_nil, List.sum_nil, List.length_nil,
      length_sliced, Nat.add_zero]
    omega
  | prefillFail pc more sliced =>
    subst sliced
    apply left_failBatch_lt
    · exact length_sliced _ _ _
    · simp only [left, pc, size, StaticPc.unbuilt, List.length_nil]
      omega
  | decodeEnd pc =>
    simp only [left, pc, size, StaticPc.unbuilt, List.length_nil]
    omega
  | @decode running steps port pc those some returned =>
    subst those
    have within := length_running_le s.jobs
    have submit := left_of_submit (n := s.jobs.length) (Nat.le_refl _)
      (show 1 ≤ (Static.running s.jobs).length by
        rw [Static.running, seqs, List.length_map]
        exact List.length_pos_iff.mpr some) within
    show left w { s with port := port, pc := .acceptDecode (Static.running s.jobs) steps } < s.left w
    simp only [left, pc, size, toGo, StaticPc.unbuilt, List.map_nil, List.sum_nil, List.length_nil, Nat.add_zero]
    omega
  | decodeFail pc =>
    apply left_failBatch_lt
    · rfl
    · simp only [left, pc, size, StaticPc.unbuilt, List.length_nil]
      omega
  | acceptEnd loop pc =>
    rw [left_stay loop pc]
    cases loop <;>
      simp only [left, size, toGo, StaticPc.unbuilt, List.map_nil, List.sum_nil, List.length_nil, Nat.add_zero,
        Nat.sub_zero] <;> omega
  | acceptFail loop pc =>
    apply left_failBatch_lt
    · rfl
    · rw [left_stay loop pc]
      omega
  | acceptStray loop pc missing =>
    exact absurd ((running_sublist s.jobs).subset (waits loop pc)) missing
  | acceptGoOn loop pc here accepted =>
    exact accepts loop pc here rfl rfl (SequenceState.accept_accepts accepted).toGo_lt
  | @acceptFinish leave stay slots step steps before job after state port finished loop pc here accepted
      notified =>
    subst notified
    refine accepts loop pc here rfl rfl ?_
    have ended := SequenceState.finish_finished (w := w)
      (SequenceState.accept_accepts accepted).finished_of_stops port
    rw [SequenceState.toGo_of_finished ended]
    apply SequenceState.toGo_pos
    obtain ⟨other, member, same⟩ := mem_seqs.mp (waits loop pc)
    obtain ⟨inside', unfinished⟩ := List.mem_filter.mp member
    have identical : other = job := List.inj_on_of_nodup_map layout.nodup inside'
      (by rw [here]; simp) same
    subst identical
    simpa using unfinished
  | @deliver before job after finished pc here notified =>
    simp only [left, pc, here, List.length_append, List.length_cons]
    omega
  | deliverEnd pc =>
    simp only [left, pc]
    omega

end Static

/-! ## The call returns -/

namespace Static

variable {σ : Type} {w : World σ} {config : SchedulerConfig} {s s' : Static σ} {q q' : RequestQueue}

theorem batching_of_step {next : List Event × Static σ × RequestQueue}
    (stepped : s.step w config q = some next) (inside : s.pc.collecting = false) : s.pc.batching = true := by
  cases pc : s.pc with
  | collect => simp [pc, StaticPc.collecting] at inside
  | done | crashed => simp [step, turn, pc] at stepped
  | _ => rfl

theorem exists_step (inside : s.pc.batching = true) (q : RequestQueue) :
    ∃ next, s.step w config q = some next := by
  cases pc : s.pc with
  | collect | done | crashed => simp [pc, StaticPc.batching] at inside
  | _ => exact ⟨_, by simp only [step, turn, pc, Option.map_some]; rfl⟩

theorem Move.batching (move : Move w config s q s' q') (inside : s.pc.batching = true)
    (engine : w.OnlyDecodeThrows) : s'.pc.batching = true ∨ s'.pc = .collect [] := by
  have alive := move.alive engine
  cases move with
  | collect pc | finish pc | form pc => simp [pc, StaticPc.batching] at inside
  | makeCrash => exact absurd rfl (alive _)
  | acceptEnd loop | acceptStray loop | acceptGoOn loop | acceptFinish loop =>
    cases loop <;> exact .inl rfl
  | deliverEnd => exact .inr rfl
  | _ => exact .inl rfl

end Static

namespace Server

variable {σ : Type} {w : World σ} {config : SchedulerConfig} {capacity : Nat} {world : σ}
variable {past more more' : List Event} {s t : Server (Static σ)}

/-- The call of `run_batch` on a schedule: what it has done, and where it has come to. -/
def callOn (w : World σ) (config : SchedulerConfig) (actions : List Action) (s : Server (Static σ)) :
    Option (List Event × Server (Static σ)) :=
  play (Static.step w (config.construct w.caps)) (fun u _ _ => u.thread.pc.collecting = false) actions [] s

theorem call_of_callOn {actions : List Action} (called : callOn w config actions s = some (more, t)) :
    (call w config capacity world s).Run more t :=
  run_of_play (m := (static w config capacity world).startingAt s) rfl (.start rfl) called

/-- Each turn of the thread in a call is counted off; the clients' doings cost nothing. -/
theorem left_of_play {actions : List Action} (run : (static w config capacity world).Run past s)
    (played : play (Static.step w (config.construct w.caps)) (fun u _ _ => u.thread.pc.collecting = false)
      actions more s = some (more', t)) :
    actions.count .run + t.thread.left w ≤ s.thread.left w := by
  induction actions generalizing past more s with
  | nil =>
    cases played
    simp
  | cons action actions ih =>
    cases action with
    | push request =>
      simp only [play] at played
      split at played
      · rename_i fits
        have rest := ih (run.next (.push request fits.1)) played
        rwa [List.count_cons_of_ne (by simp)]
      · cases played
    | close =>
      simp only [play] at played
      split at played
      · have rest := ih (run.next .close) played
        rwa [List.count_cons_of_ne (by simp)]
      · cases played
    | run =>
      simp only [play] at played
      split at played
      · cases played
      · rename_i events thread queue stepped
        split at played
        · rename_i inside
          have settled := settledStatic_run run
          have rest := ih (run.next (.run stepped)) played
          have batching := Static.batching_of_step stepped (of_decide_eq_true inside)
          obtain ⟨thread', move, rfl, rfl⟩ := Static.step_move settled.layout stepped
          have less := move.left_lt settled.layout (attending_run run) batching
          have same : thread'.quiet.left w = thread'.left w := rfl
          simp only [List.count_cons_self]
          simp only [same] at rest
          omega
        · cases played

/-- The turns of the thread bring a call to its end. -/
theorem returns (engine : w.OnlyDecodeThrows) (run : (static w config capacity world).Run past s)
    (here : s.thread.pc.batching = true ∨ s.thread.pc = .collect []) (more : List Event) :
    ∃ n more' t, play (Static.step w (config.construct w.caps)) (fun u _ _ => u.thread.pc.collecting = false)
      (List.replicate n .run) more s = some (more', t) ∧ t.thread.pc = .collect [] := by
  -- by induction on what is left of the call
  generalize level : s.thread.left w = left
  induction left using Nat.strong_induction_on generalizing past more s with
  | _ left ih =>
    rcases here with inside | isOver
    · obtain ⟨⟨events, thread, queue⟩, stepped⟩ : ∃ next,
          s.thread.step w (config.construct w.caps) s.queue = some next := Static.exists_step inside s.queue
      have settled := settledStatic_run run
      have after := run.next (.run stepped)
      obtain ⟨thread', move, rfl, rfl⟩ := Static.step_move settled.layout stepped
      have less := move.left_lt settled.layout (attending_run run) inside
      obtain ⟨n, more', t, played, done⟩ := ih _ (by rw [← level]; exact less) after
        (move.batching inside engine) (more ++ thread'.port.log) rfl
      have within : s.thread.pc.collecting = false := by
        cases pc : s.thread.pc with
        | collect => simp [pc, StaticPc.batching] at inside
        | _ => rfl
      refine ⟨n + 1, more', t, ?_, done⟩
      simp only [List.replicate_succ, play, stepped, within, decide_true, if_true]
      exact played
    · exact ⟨0, more, s, rfl, isOver⟩

theorem batching_call (engine : w.OnlyDecodeThrows) (run : (static w config capacity world).Run past s)
    {batch : List Request} (formed : s.thread.pc = .make batch)
    (call : (call w config capacity world s).Run more t) :
    t.thread.pc.batching = true ∨ t.thread.pc = .collect [] := by
  refine call_invariant run ?_ ?_ call
  · rw [formed]
    exact .inl rfl
  · intro more u thread queue _ _ inside here move
    rcases here with batching | isOver
    · exact move.batching batching engine
    · simp [isOver, StaticPc.collecting] at inside

/-- A call returns after at most `left` turns of its thread, whatever the clients do meanwhile. -/
theorem call_returns (engine : w.OnlyDecodeThrows) (run : (static w config capacity world).Run past s)
    {batch : List Request} (formed : s.thread.pc = .make batch) {actions : List Action}
    (called : callOn w config actions s = some (more, t)) :
    ∃ n more' t', actions.count .run + n ≤ s.thread.left w ∧
      callOn w config (actions ++ List.replicate n .run) s = some (more', t') ∧
      t'.thread.pc = .collect [] := by
  have call : (call w config capacity world s).Run more t := call_of_callOn called
  obtain ⟨n, more', t', played, isOver⟩ := returns engine (run.andThen call.of_guarded)
    (batching_call engine run formed call) more
  have whole : callOn w config (actions ++ List.replicate n .run) s = some (more', t') := by
    unfold callOn at called ⊢
    rw [play_append, called]
    exact played
  have counted := left_of_play run whole
  rw [List.count_append, List.count_replicate_self] at counted
  exact ⟨n, more', t', by omega, whole, isOver⟩

end Server

end MicroVllm
