import MicroVllm.Scheduler.Entries
import MicroVllm.Scheduler.Histories
import MicroVllm.Scheduler.Phases

/-! # Phases in a static batch

A static batch goes through its phases in step: the jobs before the slicing loop are past
their prompts, those after it have not been submitted for, and once the lockstep loop runs
every unfinished job is past its prompt.
-/

namespace MicroVllm

/-! ## Slices -/

/-- The items of a slice, and of a lockstep turn, belong to jobs that are not yet finished. -/
theorem Fills.behind {earlier later later' : List Job} {items : List BatchItem}
    (fills : Fills later later' items) (nodup : (seqs (earlier ++ later)).Nodup) :
    Fills (earlier ++ later) (earlier ++ later') items where
  owned item member := by
    rw [seqs_append]
    exact List.mem_append_right _ (fills.owned item member)
  served := by
    rw [seqs_append, List.nodup_append] at nodup
    apply List.rel_append _ fills.served
    apply List.forall₂_same.mpr
    intro job member
    have none : itemsOf job.state.seq items = [] := by
      apply itemsOf_eq_nil
      intro item inside same
      exact nodup.2.2 _ (mem_seqs.mpr ⟨job, member, rfl⟩) _ (fills.owned item inside) same.symm
    rw [none]
    exact .idle

theorem prefillItem_chunk (s : SequenceState) :
    s.prefillItem = s.takePrefillChunk s.prefillRemaining := by
  have all : min s.prompt.length s.prefillRemaining = min s.prefillRemaining s.prefillRemaining := by
    rw [SequenceState.prefillRemaining]
    omega
  rw [SequenceState.prefillItem, SequenceState.takePrefillChunk, all]
  rfl

theorem prefilling_iff (s : SequenceState) : s.prefilling = true ↔ 0 < s.prefillRemaining := by
  simp [SequenceState.prefilling]

/-- A slice submits the whole prompts of its jobs, and nothing for the others. -/
theorem buildSlice_serves (nBatch tokens : Nat) (started : Bool) {jobs : List Job}
    (nodup : (seqs jobs).Nodup) :
    (∀ item ∈ (buildSlice nBatch tokens started jobs).2.1, item.seq ∈ seqs jobs) ∧
      List.Forall₂ (fun job job' => (job.state.finished = false → job.state.prefilling = true) →
        Served job job' (itemsOf job.state.seq (buildSlice nBatch tokens started jobs).2.1))
        jobs (buildSlice nBatch tokens started jobs).1 := by
  induction jobs generalizing tokens started with
  | nil => exact ⟨by simp [buildSlice], .nil⟩
  | cons job jobs ih =>
    rw [seqs_cons, List.nodup_cons] at nodup
    have rest := fun tokens started => ih tokens started nodup.2
    -- what is submitted for those behind is not for this job
    have alone : ∀ tokens started,
        itemsOf job.state.seq (buildSlice nBatch tokens started jobs).2.1 = [] := by
      intro tokens started
      apply itemsOf_eq_nil
      intro item inside same
      exact nodup.1 (same ▸ (rest tokens started).1 item inside)
    simp only [buildSlice]
    split
    · -- a job that failed at the start is passed over
      obtain ⟨owned, served⟩ := rest tokens started
      refine ⟨fun item inside => List.mem_cons_of_mem _ (owned item inside), .cons ?_ served⟩
      intro _
      rw [alone]
      exact .idle
    · rename_i unfinished
      have unfinished : job.state.finished = false := by simpa using unfinished
      split
      · -- the slice is full
        exact ⟨by simp, List.forall₂_same.mpr fun _ _ _ => .idle⟩
      · obtain ⟨owned, served⟩ := rest (tokens + job.state.prefillRemaining) true
        rw [prefillItem_chunk]
        have owner : (job.state.takePrefillChunk job.state.prefillRemaining).1.seq = job.state.seq := rfl
        constructor
        · intro item member
          rcases List.mem_cons.mp member with rfl | inside
          · exact List.mem_cons_self
          · exact List.mem_cons_of_mem _ (owned item inside)
        · apply List.Forall₂.cons
          · intro fresh
            rw [itemsOf_cons_self _ owner, alone]
            exact .prefill unfinished ((prefilling_iff _).mp (fresh unfinished)) (Nat.le_refl _)
          · apply Lists.forall₂_imp_mem _ served
            intro other member job' served fresh
            have different : job.state.seq ≠ other.state.seq :=
              fun same => nodup.1 (mem_seqs.mpr ⟨other, member, same.symm⟩)
            rw [itemsOf_cons_other _ (by rw [owner]; exact different)]
            exact served fresh

/-- A slice of jobs that all have a prompt to submit is a batch for them. -/
theorem buildSlice_fills (nBatch tokens : Nat) (started : Bool) {jobs : List Job}
    (nodup : (seqs jobs).Nodup)
    (fresh : ∀ job ∈ jobs, job.state.finished = false → job.state.prefilling = true) :
    Fills jobs (buildSlice nBatch tokens started jobs).1 (buildSlice nBatch tokens started jobs).2.1 := by
  obtain ⟨owned, served⟩ := buildSlice_serves nBatch tokens started nodup
  refine ⟨owned, Lists.forall₂_imp_mem ?_ served⟩
  intro job member job' served
  exact served (fresh job member)

/-- The job in place `k` of a batch of which a slice from place `i` on is submitted. -/
theorem sliced_serves {jobs : List Job} (nodup : (seqs jobs).Nodup) {i : Nat} (more : i < jobs.length)
    (nBatch : Nat) {k : Nat} {job' : Job}
    (there : (jobs.take i ++ (buildSlice nBatch 0 false (jobs.drop i)).1)[k]? = some job') :
    ∃ job, jobs[k]? = some job ∧
      ((i ≤ k → job.state.finished = false → job.state.prefilling = true) →
        Served job job' (itemsOf job.state.seq (buildSlice nBatch 0 false (jobs.drop i)).2.1)) := by
  have length : (jobs.take i).length = i := List.length_take_of_le (by omega)
  have whole : (seqs (jobs.take i ++ jobs.drop i)).Nodup := by rwa [List.take_append_drop]
  rw [seqs_append, List.nodup_append] at whole
  obtain ⟨owned, served⟩ := buildSlice_serves nBatch 0 false whole.2.1
  by_cases earlier : k < i
  · -- nothing is submitted for a job the loop has been past
    rw [List.getElem?_append_left (by omega)] at there
    have here : jobs[k]? = some job' := by rwa [List.getElem?_take, if_pos earlier] at there
    refine ⟨job', here, fun _ => ?_⟩
    have none : itemsOf job'.state.seq (buildSlice nBatch 0 false (jobs.drop i)).2.1 = [] := by
      apply itemsOf_eq_nil
      intro item inside same
      exact whole.2.2 _ (mem_seqs.mpr ⟨job', List.mem_of_getElem? there, rfl⟩) _ (owned item inside) same.symm
    rw [none]
    exact .idle
  · rw [List.getElem?_append_right (by omega), length] at there
    obtain ⟨job, here, served⟩ := Lists.getElem?_of_forall₂ served there
    rw [List.getElem?_drop, Nat.add_sub_cancel' (by omega)] at here
    exact ⟨job, here, fun fresh => served (fresh (by omega))⟩

/-- The submitted slots are those of the items, and every item samples. -/
theorem buildSlice_submitted (nBatch tokens : Nat) (started : Bool) (jobs : List Job) :
    (buildSlice nBatch tokens started jobs).2.2.1 =
      ((buildSlice nBatch tokens started jobs).2.1.filter (·.sample)).map (·.seq) := by
  induction jobs generalizing tokens started with
  | nil => rfl
  | cons job jobs ih =>
    simp only [buildSlice]
    split
    · exact ih tokens started
    · split
      · rfl
      · have samples : (job.state.prefillItem).1.sample = true := by
          apply decide_eq_true
          show job.state.prompt.length -
            (job.state.prefilled + min job.state.prompt.length job.state.prefillRemaining) = 0
          rw [SequenceState.prefillRemaining]
          omega
        rw [List.filter_cons_of_pos samples, List.map_cons, ih]
        rfl

/-- What the slice went past is through, and the rest is as it was. -/
theorem buildSlice_side (nBatch tokens : Nat) (started : Bool) {jobs : List Job} {k : Nat} {job : Job}
    (here : (buildSlice nBatch tokens started jobs).1[k]? = some job)
    (fresh : ∀ old, jobs[k]? = some old → old.state.finished = false → old.state.prefilling = true)
    (unfinished : job.state.finished = false) :
    job.state.prefilling = true ↔ (buildSlice nBatch tokens started jobs).2.2.2 ≤ k := by
  induction jobs generalizing tokens started k with
  | nil => simp [buildSlice] at here
  | cons first jobs ih =>
    simp only [buildSlice] at here ⊢
    split at here
    · -- passed over, and finished
      rename_i finished
      rw [if_pos finished]
      cases k with
      | zero =>
        simp only [List.getElem?_cons_zero, Option.some.injEq] at here
        rw [here] at finished
        simp [finished] at unfinished
      | succ k =>
        rw [ih tokens started here fresh]
        simp
    · rename_i running
      rw [if_neg running]
      split at here
      · -- the slice is full and ends before this job
        rename_i full
        rw [if_pos full]
        simp only [Nat.zero_le, iff_true]
        exact fresh job here unfinished
      · -- submitted whole
        rename_i room
        rw [if_neg room]
        cases k with
        | zero =>
          simp only [List.getElem?_cons_zero, Option.some.injEq] at here
          subst here
          simp only [Nat.le_zero, Nat.add_eq_zero_iff, Nat.one_ne_zero, and_false, iff_false,
            Bool.not_eq_true]
          simp only [SequenceState.prefillItem, SequenceState.takePrefillChunk,
            SequenceState.prefilling, SequenceState.prefillRemaining, gt_iff_lt,
            decide_eq_false_iff_not]
          omega
        | succ k =>
          rw [ih _ _ here fresh]
          simp

/-- A lockstep turn feeds back the last token of every unfinished job. -/
theorem decodes_serve {jobs : List Job} (nodup : (seqs jobs).Nodup) {job : Job} (member : job ∈ jobs)
    (through : job.state.finished = false → job.state.prefilling = false) :
    Served job job (itemsOf job.state.seq
      ((jobs.filter fun job => !job.state.finished).map fun job => job.state.decodeItem)) := by
  have distinct : (seqs (jobs.filter fun job => !job.state.finished)).Nodup :=
    nodup.sublist (List.filter_sublist.map _)
  rcases itemsOf_decodes distinct job.state.seq with none | ⟨other, chosen, same, item⟩
  · rw [none]
    exact .idle
  · have identical : other = job := List.inj_on_of_nodup_map nodup
      (List.mem_of_mem_filter chosen) member same
    subst identical
    have unfinished : other.state.finished = false := by simpa using (List.mem_filter.mp chosen).2
    rw [item]
    exact .decode unfinished (through unfinished)

theorem decodes_fill {jobs : List Job} (nodup : (seqs jobs).Nodup)
    (through : ∀ job ∈ jobs, job.state.finished = false → job.state.prefilling = false) :
    Fills jobs jobs ((jobs.filter fun job => !job.state.finished).map fun job => job.state.decodeItem) where
  owned item member := by
    obtain ⟨job, chosen, rfl⟩ := List.mem_map.mp member
    exact mem_seqs.mpr ⟨job, List.mem_of_mem_filter chosen, rfl⟩
  served := List.forall₂_same.mpr fun job member => decodes_serve nodup member (through job member)

theorem decodes_sampling (jobs : List Job) :
    (((jobs.map fun job => job.state.decodeItem).filter (·.sample)).map (·.seq)) = seqs jobs := by
  have all : (jobs.map fun job => job.state.decodeItem).filter (·.sample) =
      jobs.map fun job => job.state.decodeItem := by
    rw [List.filter_eq_self]
    intro item member
    obtain ⟨job, _, rfl⟩ := List.mem_map.mp member
    rfl
  rw [all, List.map_map]
  rfl

/-! ## Where the loop is -/

namespace StaticPc

/-- The slots that have been sampled for and have not got their step. -/
def waiting : StaticPc → List Nat
  | .acceptPrefill _ submitted _ => submitted
  | .acceptDecode running _ => running
  | _ => []

def due (slot : Nat) : StaticPc → Option (Option GenStep)
  | .acceptPrefill _ submitted steps => dueIn slot submitted steps
  | .acceptDecode running steps => dueIn slot running steps
  | _ => none

/-- Whether the unfinished job in place `k` still has its prompt to submit. -/
def Side (k : Nat) (prefilling : Bool) : StaticPc → Prop
  | .make _ => prefilling = true
  | .prefill i => prefilling = true ↔ i ≤ k
  | .acceptPrefill i _ _ => prefilling = true ↔ i ≤ k
  | .decode => prefilling = false
  | .acceptDecode _ _ => prefilling = false
  | _ => True

end StaticPc

/-- What may be sampled is forgotten. -/
theorem Seat.Running.any {σ : Type} {w : World σ} {C : Choice} {seat : Seat Token}
    {tokens cells : List Token} (running : seat.Running w C tokens cells) :
    seat.Running w (Sampler.any.choice w) tokens cells := by
  obtain ⟨job, due, held⟩ := seat
  obtain ⟨inside, generates, contents, phase⟩ := running
  refine ⟨inside, generates.transfer rfl fun _ _ _ => trivial, contents, ?_⟩
  cases phase with
  | prefilling more fresh holds => exact .prefilling more fresh holds
  | waiting through holds => exact .waiting through holds fun _ _ => trivial
  | decoding through begun last => exact .decoding through begun last

namespace Static

variable {σ : Type} {w : World σ} {config : SchedulerConfig} {T : Tracker w .token}
variable {past : List Event} {s s' : Static σ}

namespace AcceptLoop

variable {leave : StaticPc} {stay : List Nat → List GenStep → StaticPc}

theorem due_stay (loop : AcceptLoop leave stay) (slot : Nat) (slots : List Nat)
    (steps : List GenStep) : (stay slots steps).due slot = dueIn slot slots steps := by
  cases loop <;> rfl

theorem waiting_stay (loop : AcceptLoop leave stay) (slots : List Nat) (steps : List GenStep) :
    (stay slots steps).waiting = slots := by
  cases loop <;> rfl

theorem due_leave (loop : AcceptLoop leave stay) (slot : Nat) : leave.due slot = none := by
  cases loop <;> rfl

theorem waiting_leave (loop : AcceptLoop leave stay) : leave.waiting = [] := by
  cases loop <;> rfl

theorem side_stay (loop : AcceptLoop leave stay) (slots : List Nat) (steps : List GenStep) (k : Nat)
    (prefilling : Bool) : (stay slots steps).Side k prefilling = leave.Side k prefilling := by
  cases loop <;> rfl

end AcceptLoop

def seat (T : Tracker w .token) (past : List Event) (s : Static σ) (job : Job) : Seat Token where
  job := job
  due := s.pc.due job.state.seq
  held := T.contents past s.port job.state.seq

/-- The log moves from the port into the history. -/
theorem seat_quiet (T : Tracker w .token) (past : List Event) (s : Static σ) (job : Job) :
    s.quiet.seat T (past ++ s.port.log) job = s.seat T past job := by
  simp [seat, Tracker.contents, Static.quiet]

structure Lockstep (w : World σ) (T : Tracker w .token) (past : List Event) (s : Static σ) : Prop where
  once : s.pc.waiting.Nodup
  side : ∀ (k : Nat) job, s.jobs[k]? = some job → job.state.finished = false →
    s.pc.Side k job.state.prefilling
  running : ∀ job ∈ s.jobs, job.state.finished = false →
    ∃ tokens cells, (s.seat T past job).Running w (Sampler.any.choice w) tokens cells

namespace Lockstep

/-- The jobs from the loop's place on have their prompts to submit. -/
theorem fresh {i : Nat} (before : s.Lockstep w T past) (pc : s.pc = .prefill i) :
    ∀ job ∈ s.jobs.drop i, job.state.finished = false → job.state.prefilling = true := by
  intro job member unfinished
  obtain ⟨k, there⟩ := List.mem_iff_getElem?.mp member
  rw [List.getElem?_drop] at there
  have side := before.side (i + k) job there unfinished
  rw [pc] at side
  exact side.mpr (Nat.le_add_right i k)

/-- A slice of the jobs from there on, as a batch for all of them. -/
theorem sliced_fills {i : Nat} (before : s.Lockstep w T past) (layout : Layout s)
    (pc : s.pc = .prefill i) (nBatch : Nat) :
    Fills s.jobs (s.jobs.take i ++ (buildSlice nBatch 0 false (s.jobs.drop i)).1)
      (buildSlice nBatch 0 false (s.jobs.drop i)).2.1 := by
  have distinct : (seqs (s.jobs.take i ++ s.jobs.drop i)).Nodup := by
    rw [List.take_append_drop]
    exact layout.nodup
  have slice := buildSlice_fills nBatch 0 false
    (layout.nodup.sublist ((List.drop_sublist i _).map _)) (before.fresh pc)
  have whole := slice.behind distinct
  rwa [List.take_append_drop] at whole

theorem through (before : s.Lockstep w T past) (pc : s.pc = .decode) :
    ∀ job ∈ s.jobs, job.state.finished = false → job.state.prefilling = false := by
  intro job member unfinished
  obtain ⟨k, there⟩ := List.mem_iff_getElem?.mp member
  have side := before.side k job there unfinished
  rw [pc] at side
  exact side

end Lockstep

/-! ## Who waits -/

/-- Two stages of a job in which it is running, or in neither. -/
structure Standing (job job' : Job) : Prop where
  seq : job'.state.seq = job.state.seq
  finished : job'.state.finished = job.state.finished

theorem Standing.refl (job : Job) : Standing job job := ⟨rfl, rfl⟩

theorem seqs_of_standing {jobs jobs' : List Job} (stand : List.Forall₂ Standing jobs jobs') :
    seqs jobs' = seqs jobs := by
  induction stand with
  | nil => rfl
  | cons head _ ih => rw [seqs_cons, seqs_cons, head.seq, ih]

/-- The slots of the jobs that have not finished. -/
def running (jobs : List Job) : List Nat := seqs (jobs.filter fun job => !job.state.finished)

theorem running_cons (job : Job) (jobs : List Job) :
    running (job :: jobs) = if job.state.finished then running jobs else job.state.seq :: running jobs := by
  cases finished : job.state.finished <;> simp [running, finished]

theorem running_append (jobs jobs' : List Job) : running (jobs ++ jobs') = running jobs ++ running jobs' := by
  simp [running]

theorem running_sublist (jobs : List Job) : (running jobs).Sublist (seqs jobs) :=
  List.filter_sublist.map _

theorem running_of_standing {jobs jobs' : List Job} (stand : List.Forall₂ Standing jobs jobs') :
    running jobs' = running jobs := by
  induction stand with
  | nil => rfl
  | cons head _ ih => rw [running_cons, running_cons, head.seq, head.finished, ih]

theorem sliced_standing (i nBatch : Nat) (jobs : List Job) :
    List.Forall₂ Standing jobs (jobs.take i ++ (buildSlice nBatch 0 false (jobs.drop i)).1) :=
  sliced_relates .refl (fun _ _ => ⟨rfl, rfl⟩) i nBatch jobs

/-- The slots of a slice are those of jobs that are running. -/
theorem buildSlice_attended (nBatch tokens : Nat) (started : Bool) (jobs : List Job) :
    (buildSlice nBatch tokens started jobs).2.2.1.Sublist (running jobs) := by
  induction jobs generalizing tokens started with
  | nil => exact .refl _
  | cons job jobs ih =>
    simp only [buildSlice, running_cons]
    split
    · exact ih _ _
    · split
      · exact List.nil_sublist _
      · exact (ih _ _).cons_cons _

/-- The slots that wait for a step are those of running jobs, in their order. -/
def Attending (s : Static σ) : Prop := s.pc.waiting.Sublist (running s.jobs)

namespace Attending

theorem nodup (attending : s.Attending) (layout : Layout s) : s.pc.waiting.Nodup :=
  layout.nodup.sublist (attending.trans (running_sublist s.jobs))

theorem of_idle (idle : s.pc.waiting = []) : s.Attending := by
  rw [Attending, idle]
  exact List.nil_sublist _

theorem quiet (attending : s.Attending) : s.quiet.Attending := attending

/-- The slot at the head gets its step. -/
theorem tail {slot : Nat} {slots : List Nat} (attending : s.Attending)
    (waiting : s.pc.waiting = slot :: slots) : slots.Sublist (running s.jobs) := by
  rw [Attending, waiting] at attending
  exact (List.sublist_cons_self slot slots).trans attending

theorem move {q q' : RequestQueue} (attending : s.Attending) (layout : Layout s)
    (move : Move w config s q s' q') : s'.Attending := by
  cases move with
  | @prefill i slice steps port pc more sliced =>
    subst sliced
    have inside := buildSlice_attended w.caps.nBatch 0 false (s.jobs.drop i)
    have rest : (running (s.jobs.drop i)).Sublist (running s.jobs) :=
      ((List.drop_sublist i s.jobs).filter _).map _
    rw [Attending, running_of_standing (sliced_standing i w.caps.nBatch s.jobs)]
    exact inside.trans rest
  | decode pc those =>
    subst those
    exact List.Sublist.refl _
  | acceptEnd loop => exact .of_idle loop.waiting_leave
  | acceptStray loop pc =>
    rw [Attending, loop.waiting_stay]
    exact attending.tail (by rw [pc, loop.waiting_stay])
  | acceptGoOn loop pc here accepted =>
    obtain ⟨unfinished, still⟩ := (SequenceState.accept_accepts accepted).unfinished_of_goesOn
    have rest := attending.tail (by rw [pc, loop.waiting_stay])
    rw [Attending, loop.waiting_stay]
    rw [here, running_append, running_cons, if_neg (by simp [unfinished])] at rest
    rw [running_append, running_cons, if_neg (by simp [still]), (SequenceState.accept_same accepted).seq]
    exact rest
  | @acceptFinish leave stay slots step steps before job after state port finished loop pc here accepted
      notified =>
    subst notified
    have ended := SequenceState.finish_finished (w := w)
      (SequenceState.accept_accepts accepted).finished_of_stops port
    have rest := attending.tail (by rw [pc, loop.waiting_stay])
    rw [Attending, loop.waiting_stay, running_append, running_cons, if_pos ended]
    rw [here, running_append, running_cons] at rest
    by_cases already : job.state.finished = true
    · rwa [if_pos already] at rest
    · -- the job leaves the running ones, and its slot does not wait twice
      rw [Attending, pc, loop.waiting_stay, here, running_append, running_cons, if_neg already] at attending
      have distinct := layout.nodup
      rw [here] at distinct
      have missing : job.state.seq ∉ running before := by
        intro inside
        obtain ⟨other, member, same⟩ := mem_seqs.mp ((running_sublist before).subset inside)
        exact (seqs_around distinct).1 other member same
      have erased := attending.erase job.state.seq
      rwa [List.erase_cons_head, List.erase_append_right _ missing, List.erase_cons_head] at erased
  | _ => exact .of_idle rfl

end Attending

/-! ## What a move logs -/

/-- A move logs routine, or submits a batch that its jobs were waiting for. -/
inductive Logs (w : World σ) (s s' : Static σ) : Prop where
  | routine (adds : s.port.Adds Event.Routine s'.port)
  | submits {jobs items result port} (idle : ∀ slot, s.pc.due slot = none)
      (fills : Fills s.jobs jobs items) (decoded : s.port.decode w items = (result, port))
      (adds : port.Adds Event.Routine s'.port)

theorem settleAll_adds (message : String) (jobs : List Job) (port : Port σ) :
    port.Adds Event.Routine (settleAll w message jobs port).2 := by
  induction jobs generalizing port with
  | nil => exact .refl port
  | cons job jobs ih =>
    simp only [settleAll]
    refine Port.Adds.trans ?_ (ih _)
    exact ((SequenceState.finish_adds _ port).mono fun _ => Event.Routine.of_toSink).trans
      (.release _ _ trivial)

/-- The same without what the batch is known to be: a slice of prompts, or one token of each
    unfinished job. -/
inductive Decodes (w : World σ) (s s' : Static σ) : Prop where
  | routine (adds : s.port.Adds Event.Routine s'.port)
  | slice {i result port} (pc : s.pc = .prefill i)
      (decoded : s.port.decode w (buildSlice w.caps.nBatch 0 false (s.jobs.drop i)).2.1 = (result, port))
      (adds : port.Adds Event.Routine s'.port)
  | lockstep {result port} (pc : s.pc = .decode)
      (decoded : s.port.decode w ((s.jobs.filter fun job => !job.state.finished).map fun job =>
        job.state.decodeItem) = (result, port))
      (adds : port.Adds Event.Routine s'.port)

theorem Move.decodes {q q' : RequestQueue} (move : Move w config s q s' q') : Decodes w s s' := by
  cases move with
  | makeCrash pc begun => exact .routine (.begin begun trivial)
  | makeFull pc begun => exact .routine (.begin begun trivial)
  | makeFailed pc begun | make pc begun =>
    exact .routine ((Port.Adds.begin begun trivial).trans (.note _ trivial))
  | prefill pc more sliced something returned =>
    subst sliced
    exact .slice pc returned (.refl _)
  | prefillFail pc more sliced something threw =>
    subst sliced
    exact .slice pc threw (settleAll_adds _ _ _)
  | decode pc those some returned =>
    subst those
    exact .lockstep pc returned (.refl _)
  | decodeFail pc those some threw =>
    subst those
    exact .lockstep pc threw (settleAll_adds _ _ _)
  | acceptFail => exact .routine (settleAll_adds _ _ _)
  | acceptGoOn loop pc here accepted => exact .routine (SequenceState.accept_routine accepted)
  | acceptFinish loop pc here accepted notified =>
    subst notified
    exact .routine (((SequenceState.accept_routine accepted).trans (SequenceState.finish_routine _ _)).trans
      (.release _ _ trivial))
  | deliver pc here notified =>
    subst notified
    have counted : ∀ port : Port σ, port.Adds Event.Routine (port.note (.stat .completed 1)) :=
      fun port => .note port trivial
    exact .routine (((SequenceState.finish_routine _ _).trans (counted _)).trans
      (Scheduler.deliver_adds (fun _ _ _ => trivial) (fun _ _ => trivial) _ _))
  | deliverEnd => exact .routine (.note _ trivial)
  | _ => exact .routine (.refl _)

theorem Lockstep.logs {q q' : RequestQueue} (before : s.Lockstep w T past) (layout : Layout s)
    (move : Move w config s q s' q') : Logs w s s' := by
  cases move.decodes with
  | routine adds => exact .routine adds
  | slice pc decoded adds =>
    exact .submits (fun _ => by rw [pc]; rfl) (before.sliced_fills layout pc w.caps.nBatch) decoded adds
  | lockstep pc decoded adds =>
    exact .submits (fun _ => by rw [pc]; rfl) (decodes_fill layout.nodup (before.through pc)) decoded adds

/-! ## Whose requests these are -/

/-- The requests the thread has taken. -/
def requests (s : Static σ) : List Request :=
  (match s.pc with
    | .collect batch => batch
    | .make rest => rest
    | _ => []) ++ s.jobs.map Job.request

theorem requests_sliced (i nBatch : Nat) (jobs : List Job) :
    (jobs.take i ++ (buildSlice nBatch 0 false (jobs.drop i)).1).map Job.request = jobs.map Job.request :=
  map_sliced (fun _ => rfl) i nBatch jobs

theorem requests_settleAll (message : String) (jobs : List Job) (port : Port σ) :
    (settleAll w message jobs port).1.map Job.request = jobs.map Job.request :=
  map_settleAll message (fun _ _ => rfl) jobs port

/-- Requests come from the queue. -/
theorem Move.requests {q q' : RequestQueue} (move : Move w config s q s' q') :
    ∀ r ∈ q'.queue ++ s'.requests, r ∈ q.queue ++ s.requests := by
  intro r member
  cases move with
  | collect pc front =>
    simp only [Static.requests, pc, front, List.mem_append, List.mem_cons] at member ⊢
    tauto
  | form pc | made pc | deliverEnd pc | finish pc | makeCrash pc | prefillEnd pc | decodeEnd pc
  | decode pc =>
    simp only [Static.requests, pc, List.mem_append, List.map_nil, List.not_mem_nil] at member ⊢
    tauto
  | makeFailed pc begun made | make pc begun made | makeFull pc begun made =>
    subst made
    simp only [Static.requests, pc, List.mem_append, List.mem_cons, List.map_append, List.map_cons,
      Scheduler.newJob_request, List.map_nil, List.not_mem_nil] at member ⊢
    tauto
  | prefillSkip pc more sliced | prefill pc more sliced =>
    subst sliced
    simp only [Static.requests, pc, requests_sliced] at member ⊢
    exact member
  | prefillFail pc more sliced =>
    subst sliced
    simp only [Static.requests, pc, failBatch, requests_settleAll, requests_sliced] at member ⊢
    exact member
  | decodeFail pc =>
    simp only [Static.requests, pc, failBatch, requests_settleAll] at member ⊢
    exact member
  | acceptFail loop pc =>
    cases loop <;> simpa [Static.requests, pc, failBatch, requests_settleAll] using member
  | acceptEnd loop pc | acceptStray loop pc => cases loop <;> simpa [Static.requests, pc] using member
  | acceptGoOn loop pc here | acceptFinish loop pc here =>
    cases loop <;> simpa [Static.requests, pc, here] using member
  | deliver pc here => simpa [Static.requests, pc, here] using member

end Static

namespace Server

variable {σ : Type} {w : World σ} {config : SchedulerConfig} {capacity : Nat} {world : σ}
variable {past : List Event} {s : Server (Static σ)}

theorem static_known_run (run : (static w config capacity world).Run past s) :
    ∀ r ∈ s.queue.queue ++ s.thread.requests, r ∈ s.accepted := by
  refine static_invariant ?_ ?_ ?_ ?_ run.guarded_true
  · simp [Static.start, Static.requests]
  · intro past s request _ known
    exact known_push known
  · exact fun _ _ known => known
  · exact fun _ s _ _ _ _ known move _ r member => known r (move.requests r member)

theorem attending_run (run : (static w config capacity world).Run past s) : s.thread.Attending := by
  refine static_thread_invariant ?_ ?_ run.guarded_true
  · exact .of_idle rfl
  · intro past s thread queue _ settled attending move _
    exact (attending.move settled.layout move).quiet

end Server

end MicroVllm
