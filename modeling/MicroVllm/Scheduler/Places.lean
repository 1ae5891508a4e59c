import MicroVllm.Scheduler.Calls

/-! # What a request of a static batch gets

A request keeps the place it has in its batch until the batch is over.  If the pool has room for the
batch, and no batch of the engine fails while the job of the request is running, then the request is
refused for the context as it would be on its own, or it gets what it would get on its own.
-/

namespace MicroVllm

/-! ## On its own -/

/-- The sink that the text of a request goes to. -/
def Request.target (request : Request) : SinkRef :=
  if request.sink then .supplied request.id else .collecting request.id

section Outcome

variable {σ : Type} {w : World σ} {S : Sampler}

/-- What a request is delivered with that the context check refuses. -/
def Request.refusal (w : World σ) (request : Request) : GenResult where
  text := []
  reason := .contextOverflow
  usage := { promptTokens := (w.tokenize request.spec.prompt true).length }
  error := Scheduler.overflowMessage (toUint32 (request.length w)) w.caps.nCtxSeq

/-- The result is the one that nobody but the request decides. -/
def Request.Gets (w : World σ) (S : Sampler) (request : Request) (result : GenResult) : Prop :=
  (request.Refused w ∧ result = request.refusal w) ∨
    (¬ request.Refused w ∧ result.Alone w S request.spec ∧ result.usage.cachedPromptTokens = 0 ∧
      result.error = "")

/-- There is one such result, and the spec decides it. -/
theorem Request.Gets.unique {samples : Samples w} {r r' : Request} {result result' : GenResult}
    (gets : r.Gets w samples.sampler result) (gets' : r'.Gets w samples.sampler result')
    (same : r'.spec = r.spec) : result' = result := by
  have length : r'.length w = r.length w := by rw [Request.length, Request.length, same]
  have refused : r'.Refused w ↔ r.Refused w := by rw [Request.Refused, Request.Refused, length]
  rcases gets with ⟨outside, rfl⟩ | ⟨inside, alone, cold, well⟩
  · rcases gets' with ⟨_, rfl⟩ | ⟨inside', _⟩
    · rw [Request.refusal, Request.refusal, length, same]
    · exact absurd (refused.mpr outside) inside'
  · rcases gets' with ⟨outside', _⟩ | ⟨_, alone', cold', well'⟩
    · exact absurd (refused.mp outside') inside
    · rw [same] at alone'
      obtain ⟨text, reason, prompt, completion⟩ := alone.agree (samples.determines r.spec) alone'
      have usage : result'.usage = result.usage := by
        show Usage.mk _ _ _ = Usage.mk _ _ _
        rw [prompt, completion, cold, cold']
      show GenResult.mk _ _ _ _ = GenResult.mk _ _ _ _
      rw [text, reason, usage, well, well']

theorem Job.result_congr {job job' : Job} (same : job'.state = job.state) : job'.result = job.result := by
  rw [Job.result, Job.result, same]

/-- The job of a refused request, as it is delivered. -/
theorem Scheduler.newJob_refusal {request : Request} (slot : Nat) (refused : request.Refused w) :
    (newJob w request slot).state.finished = true ∧
      { newJob w request slot with state := (newJob w request slot).state.closed }.result =
        request.refusal w := by
  have tokens : (newState w request slot).usage.promptTokens = (w.tokenize request.spec.prompt true).length :=
    toUint32_of_lt (Nat.lt_trans (w.tokenize_length _ _) (by decide))
  have large : w.caps.nCtxSeq > 0 ∧
      toUint32 ((newState w request slot).usage.promptTokens + request.spec.maxTokens.toNat) >
        w.caps.nCtxSeq := by
    rw [tokens]
    exact refused
  have state : (newJob w request slot).state = (newState w request slot).fail
      (overflowMessage (toUint32 (request.length w)) w.caps.nCtxSeq) .contextOverflow := by
    have same : toUint32 (request.length w) =
        toUint32 ((newState w request slot).usage.promptTokens + request.spec.maxTokens.toNat) := by
      rw [tokens]
      rfl
    rw [same]
    exact if_pos large
  have usage : (newState w request slot).usage =
      { promptTokens := (w.tokenize request.spec.prompt true).length } := by
    rw [← tokens]
    rfl
  constructor
  · rw [state]
    rfl
  · simp only [Job.result, state, Request.refusal, ← usage]
    rfl

end Outcome

/-! ## In one place of a batch -/

/-- How it stands with the seat of request `r` as long as nothing happens to it. -/
structure Seat.Kept {σ : Type} (w : World σ) (S : Sampler) (r : Request) (seat : Seat Token) : Prop where
  fair : seat.Fair w S
  request : seat.job.request = r
  clean : seat.job.state.Clean (r.Refused w) False
  sink : seat.job.state.sink = r.target
  uncancelled : (∀ world, w.cancelled r.target world = false) → seat.job.state.reason ≠ .cancelled
  refused : r.Refused w → seat.job.state.finished = true ∧
    { seat.job with state := seat.job.state.closed }.result = r.refusal w

namespace Static

variable {σ : Type} {w : World σ} {config : SchedulerConfig} {S : Sampler} {T : Tracker w .token}
variable {past : List Event} {s s' : Static σ} {q q' : RequestQueue} {k : Nat} {r : Request}

/-- A job that has finished stays as it is but for being notified of. -/
theorem Stage.settled {A : Slot Token → GenStep → Prop} {seat seat' : Seat Token}
    (stage : Stage w A s seat seat') (finished : seat.job.state.finished = true) :
    seat'.job.state.finished = true ∧ seat'.job.state.closed = seat.job.state.closed := by
  cases stage with
  | stay => exact ⟨finished, rfl⟩
  | serve served =>
    rw [served.idle_of_finished finished]
    exact ⟨finished, rfl⟩
  | goOn accepted =>
    rw [SequenceState.accept_of_finished finished] at accepted
    cases accepted
  | stop accepted =>
    rw [SequenceState.accept_of_finished finished] at accepted
    cases accepted
    exact ⟨SequenceState.closed_finished finished, SequenceState.closed_of_notified (SequenceState.closed_notified _)⟩
  | fail _ unfinished =>
    have finished : _ = true := finished
    rw [unfinished] at finished
    cases finished
  | close =>
    exact ⟨SequenceState.closed_finished finished,
      SequenceState.closed_of_notified (SequenceState.closed_notified _)⟩

theorem Stage.sink {A : Slot Token → GenStep → Prop} {seat seat' : Seat Token}
    (stage : Stage w A s seat seat') (spared : s.Fails w → seat.job.state.finished = true) :
    seat'.job.state.sink = seat.job.state.sink := by
  cases stage with
  | stay => rfl
  | serve served => cases served <;> rfl
  | goOn accepted => exact (SequenceState.accept_same accepted).sink
  | stop accepted => exact ((SequenceState.accept_same accepted).trans (SequenceState.closed_same _)).sink
  | fail fails unfinished =>
    have finished := spared fails
    simp [unfinished] at finished
  | close => exact (SequenceState.closed_same _).sink

/-- Nobody else cancels a job that is spared the failure path. -/
theorem Stage.uncancelled {A : Slot Token → GenStep → Prop} {seat seat' : Seat Token}
    (stage : Stage w A s seat seat') (spared : s.Fails w → seat.job.state.finished = true)
    (silent : ∀ world, w.cancelled seat.job.state.sink world = false)
    (before : seat.job.state.reason ≠ .cancelled) : seat'.job.state.reason ≠ .cancelled := by
  cases stage with
  | stay => exact before
  | serve served => cases served <;> exact before
  | goOn accepted => exact SequenceState.accept_uncancelled accepted silent before
  | stop accepted =>
    show SequenceState.reason _ ≠ _
    rw [SequenceState.closed_reason]
    exact SequenceState.accept_uncancelled accepted silent before
  | fail fails unfinished =>
    have finished := spared fails
    simp [unfinished] at finished
  | close =>
    show SequenceState.reason _ ≠ _
    rw [SequenceState.closed_reason]
    exact before

end Static

namespace Seat.Kept

variable {σ : Type} {w : World σ} {S : Sampler} {r : Request} {seat seat' : Seat Token} {s : Static σ}

theorem stage (kept : seat.Kept w S r)
    (stage : Static.Stage w (fun slot => S slot.params slot.cells) s seat seat')
    (spared : s.Fails w → seat.job.state.finished = true) : seat'.Kept w S r := by
  refine ⟨kept.fair.stage stage, stage.request.trans kept.request,
    stage.clean spared kept.clean, (stage.sink spared).trans kept.sink, ?_, ?_⟩
  · intro silent
    exact stage.uncancelled spared (by rw [kept.sink]; exact silent) (kept.uncancelled silent)
  · intro refused
    obtain ⟨finished, result⟩ := kept.refused refused
    obtain ⟨finished', closed⟩ := stage.settled finished
    exact ⟨finished', (Job.result_congr closed).trans result⟩

/-- The job that is built for the request, with whatever blocks. -/
theorem enter (r : Request) (k : Nat) (table : BlockTable) :
    Seat.Kept w S r ⟨{ Scheduler.newJob w r k with blocks := table }, none,
      some { params := r.spec.sampling, cells := [] }⟩ := by
  have entered : Seat.Fair w S ⟨Scheduler.newJob w r k, none,
      some { params := r.spec.sampling, cells := [] }⟩ := .inl (.enter r k)
  refine ⟨entered.congr rfl rfl fun _ => ⟨rfl, rfl⟩, rfl, ?_, (Scheduler.newJob_same w r k).sink, ?_, ?_⟩
  · exact SequenceState.clean_newJob r k (Scheduler.newJob_finished_iff w r k).mp
  · intro _
    simp only [Scheduler.newJob, Scheduler.checkContext]
    split <;> simp [SequenceState.fail, SequenceState.stopWith, Scheduler.newState, SequenceState.make]
  · intro refused
    obtain ⟨finished, result⟩ := Scheduler.newJob_refusal k refused
    exact ⟨finished, (Job.result_congr rfl).trans result⟩

/-- What the job is delivered with once it has finished, unless its client cancelled it. -/
theorem gets {job : Job} {due : Option (Option GenStep)} {held : Option (Slot Token)}
    (kept : Seat.Kept w S r ⟨job, due, held⟩) (prompt : w.tokenize r.spec.prompt true ≠ [])
    (finished : job.state.finished = true) (uncancelled : job.state.reason ≠ .cancelled) :
    r.Gets w S { job with state := job.state.closed }.result := by
  by_cases refused : r.Refused w
  · exact .inl ⟨refused, (kept.refused refused).2⟩
  · have clean := kept.clean.close
    have unrefused : job.state.closed.reason ≠ .contextOverflow := fun reason => refused (clean.refused reason)
    have unfailed : ¬ { job with state := job.state.closed }.result.Failed :=
      not_or.mpr ⟨clean.unfailed, unrefused⟩
    refine .inr ⟨refused, ?_, clean.cached.resolve_left id, if_neg unfailed⟩
    rcases kept.fair with exact_ | ⟨_, reason⟩
    · have own : job.request = r := kept.request
      rw [← own] at prompt ⊢
      exact (exact_.ended finished).alone prompt (fun cancelled => absurd cancelled uncancelled) unfailed
    · exact absurd ((SequenceState.closed_reason _).trans reason) unrefused

end Seat.Kept

namespace Static

variable {σ : Type} {w : World σ} {config : SchedulerConfig} {S : Sampler} {T : Tracker w .token}
variable {past : List Event} {s s' : Static σ} {q q' : RequestQueue} {k : Nat} {r : Request}

/-- The requests of the batch sit in their places, and those to come are the ones to be built. -/
def Seated (batch : List Request) (s : Static σ) : Prop :=
  ∃ rest, s.jobs.map Job.request ++ rest = batch ∧ ∀ requests, s.pc = .make requests → requests = rest

namespace Seated

variable {batch : List Request}

theorem request (seated : s.Seated batch) {job : Job} (here : s.jobs[k]? = some job) :
    batch[k]? = some job.request := by
  obtain ⟨rest, whole, _⟩ := seated
  have place : (s.jobs.map Job.request)[k]? = some job.request := by
    rw [List.getElem?_map, here]
    rfl
  rw [← whole, List.getElem?_append_left (List.getElem?_eq_some_iff.mp place).1]
  exact place

theorem length_le (seated : s.Seated batch) : s.jobs.length ≤ batch.length := by
  obtain ⟨rest, whole, _⟩ := seated
  rw [← whole]
  simp

theorem quiet (seated : s.Seated batch) : s.quiet.Seated batch := seated

/-- The same requests, and no more to be built. -/
theorem frame (seated : s.Seated batch) (same : s'.jobs.map Job.request = s.jobs.map Job.request)
    (built : ∀ requests, s'.pc ≠ .make requests) : s'.Seated batch := by
  obtain ⟨rest, whole, _⟩ := seated
  exact ⟨rest, by rw [same]; exact whole, fun requests pc => absurd pc (built requests)⟩

/-- The next job is built. -/
theorem join {request : Request} {rest : List Request} {job : Job} (seated : s.Seated batch)
    (pc : s.pc = .make (request :: rest)) (pc' : s'.pc = .make rest) (jobs : s'.jobs = s.jobs ++ [job])
    (own : job.request = request) : s'.Seated batch := by
  obtain ⟨_, whole, those⟩ := seated
  refine ⟨rest, ?_, ?_⟩
  · rw [← whole, ← those _ pc, jobs, ← own]
    simp
  · intro requests here
    rw [pc'] at here
    cases here
    rfl

theorem move (seated : s.Seated batch) (inside : s.pc.collecting = false) (move : Move w config s q s' q') :
    s'.Seated batch := by
  cases move with
  | collect pc | finish pc | form pc => simp [pc, StaticPc.collecting] at inside
  | made | makeCrash | prefillEnd | decodeEnd | decode => exact seated.frame rfl (by simp)
  | makeFailed pc begun made | make pc begun made | makeFull pc begun made =>
    subst made
    exact seated.join pc rfl rfl rfl
  | prefillSkip pc more those | prefill pc more those =>
    subst those
    exact seated.frame (requests_sliced _ _ _) (by simp)
  | prefillFail pc more those =>
    subst those
    exact seated.frame ((requests_settleAll _ _ _).trans (requests_sliced _ _ _)) (by simp [failBatch])
  | decodeFail | acceptFail => exact seated.frame (requests_settleAll _ _ _) (by simp [failBatch])
  | acceptEnd loop | acceptStray loop => exact seated.frame rfl (by cases loop <;> simp)
  | acceptGoOn loop pc here | acceptFinish loop pc here =>
    exact seated.frame (by rw [here]; simp) (by cases loop <;> simp)
  | deliver pc here => exact seated.frame (by rw [here]; simp) (by simp)
  | deliverEnd => exact ⟨batch, rfl, by simp⟩

end Seated

/-! ## Room for the batch -/

/-- The blocks that are reserved for those of a batch that fit the context. -/
def demand (w : World σ) (a : BlockAllocator) (batch : List Request) : Nat :=
  reservation w a (batch.filter fun request => ¬ request.Refused w)

/-- The pool has room for the requests still to be built. -/
def Stocked (w : World σ) (s : Static σ) : Prop :=
  ∀ rest, s.pc = .make rest → demand w s.blocks rest ≤ s.blocks.freeBlocks

theorem demand_cons (w : World σ) (a : BlockAllocator) (request : Request) (rest : List Request) :
    demand w a (request :: rest) =
      (if request.Refused w then 0 else a.blocksFor (toUint32 (request.length w))) + demand w a rest := by
  by_cases refused : request.Refused w
  · rw [demand, List.filter_cons_of_neg (by simpa using refused), if_pos refused, Nat.zero_add]
    rfl
  · rw [demand, List.filter_cons_of_pos (by simpa using refused), if_neg refused]
    exact List.sum_cons

theorem demand_congr {a b : BlockAllocator} (w : World σ) (size : b.blockSize = a.blockSize)
    (batch : List Request) : demand w b batch = demand w a batch := by
  simp only [demand, reservation, BlockAllocator.blocksFor, size]

namespace Stocked

theorem quiet (stocked : s.Stocked w) : s.quiet.Stocked w := stocked

/-- Whoever fits the context finds room. -/
theorem room (stocked : s.Stocked w) :
    ∀ request ∈ s.next?, (Scheduler.newJob w request s.jobs.length).state.finished = false →
      s.blocks.blocksFor (wholeLength (Scheduler.newJob w request s.jobs.length)) ≤ s.blocks.freeBlocks := by
  intro request next unfinished
  have fits : ¬ request.Refused w := by
    rw [← Scheduler.newJob_finished_iff w request s.jobs.length]
    simp [unfinished]
  unfold next? at next
  split at next
  · rename_i pc
    cases next
    have enough := stocked _ pc
    rw [demand_cons, if_neg fits] at enough
    rw [wholeLength_newJob]
    omega
  · cases next

theorem move (stocked : s.Stocked w) (inside : s.pc.collecting = false) (move : Move w config s q s' q') :
    s'.Stocked w := by
  cases move with
  | collect pc | finish pc | form pc => simp [pc, StaticPc.collecting] at inside
  | @makeFailed request rest job port pc begun made failed =>
    intro rest' pc'
    cases pc'
    have enough := stocked _ pc
    rw [demand_cons] at enough
    show demand w s.blocks rest ≤ s.blocks.freeBlocks
    omega
  | @make request rest job port table blocks pc begun made unfinished grown =>
    subst made
    intro rest' pc'
    cases pc'
    have fits : ¬ request.Refused w := by
      rw [← Scheduler.newJob_finished_iff w request s.jobs.length]
      simp [unfinished]
    have taken := BlockTable.ensureCapacity_freeBlocks grown
    have enough := stocked _ pc
    rw [demand_cons, if_neg fits] at enough
    rw [wholeLength_newJob] at taken
    show demand w blocks rest ≤ blocks.freeBlocks
    rw [demand_congr w (BlockTable.ensureCapacity_shape grown).2.2.2.2.2]
    omega
  | @makeFull request rest job port pc begun made unfinished full =>
    intro rest' pc'
    cases pc'
    have enough := stocked _ pc
    rw [demand_cons] at enough
    show demand w s.blocks rest ≤ s.blocks.freeBlocks
    omega
  | acceptEnd loop | acceptStray loop | acceptGoOn loop | acceptFinish loop =>
    intro rest pc'
    cases loop <;> cases pc'
  | _ =>
    intro rest pc'
    cases pc'

end Stocked

/-! ## Along a call -/

/-- A batch may fail, but the job in place `k` has finished by then. -/
def Spares (w : World σ) (k : Nat) (s : Static σ) : Prop :=
  s.Fails w → ∀ job, s.jobs[k]? = some job → job.state.finished = true

/-- The job in place `k` is that of the request, and nothing has happened to it. -/
structure Keeps (w : World σ) (S : Sampler) (T : Tracker w .token) (past : List Event) (r : Request) (k : Nat)
    (s : Static σ) : Prop where
  sided : s.Sided k
  seat : ∀ job, s.jobs[k]? = some job → (s.seat T past job).Kept w S r

namespace Keeps

theorem quiet (keeps : s.Keeps w S T past r k) : s.quiet.Keeps w S T (past ++ s.port.log) r k where
  sided := keeps.sided.quiet
  seat job here := by
    rw [seat_quiet]
    exact keeps.seat job here

theorem move {batch : List Request} (keeps : s.Keeps w S T past r k) (layout : Layout s) (isOver : s.Over)
    (attending : s.Attending) (inside : s.pc.collecting = false)
    (honest : Continuous.Honest T past (fun slot => S slot.params slot.cells) s.port)
    (seated : s.Seated batch) (place : batch[k]? = some r) (stocked : s.Stocked w)
    (prompt : w.tokenize r.spec.prompt true ≠ []) (spares : s.Spares w k) (move : Move w config s q s' q') :
    s'.Keeps w S T past r k := by
  have own : ∀ job, s'.jobs[k]? = some job → job.request = r := by
    intro job here
    have sits := (seated.move inside move).request here
    rw [place] at sits
    exact (Option.some.inj sits).symm
  refine ⟨keeps.sided.move (fun job here _ => by rw [own job here]; exact prompt) move, ?_⟩
  intro job here
  cases move.staged layout isOver attending honest keeps.sided here with
  | goesOn old stage => exact (keeps.seat _ old).stage stage fun fails => spares fails _ old
  | @enters request rest table pc last made due held =>
    subst made
    have same : request = r := own _ here
    subst same
    have entered : s'.seat T past { Scheduler.newJob w request k with blocks := table } =
        ⟨{ Scheduler.newJob w request k with blocks := table }, none,
          some { params := request.spec.sampling, cells := [] }⟩ := by
      simp only [Static.seat, Scheduler.newJob_seq, due, held]
    rw [entered]
    exact .enter request k table
  | @full request rest pc last unfinished full made =>
    -- the pool has room for whoever fits the context
    subst last
    have short := (BlockTable.ensureCapacity_eq_none_iff.mp full).2
    have enough := stocked.room request (by simp [next?, pc]) unfinished
    omega

end Keeps

end Static

namespace Server

variable {σ : Type} {w : World σ} {config : SchedulerConfig} {capacity : Nat} {world : σ}
variable {past more : List Event} {s t : Server (Static σ)} {batch : List Request}

section Call

variable (run : (static w config capacity world).Run past s) (formed : s.thread.pc = .make batch)
variable (empty : s.thread.jobs = [])

include run formed in
theorem batch_nodup : (requestIds batch).Nodup := by
  have once := (static_counts_run run).once
  have held : s.thread.held = owners s.thread.jobs ++ requestIds batch := by simp [Static.held, formed]
  rw [held, List.nodup_append, List.nodup_append] at once
  exact (List.nodup_append.mp once.1.2.1).2.1

include run formed empty in
theorem seated_call (call : (call w config capacity world s).Run more t) : t.thread.Seated batch := by
  refine call_invariant run ?_ ?_ call
  · refine ⟨batch, by rw [empty]; rfl, ?_⟩
    intro requests pc
    rw [formed] at pc
    cases pc
    rfl
  · intro more u thread queue _ _ inside seated move
    exact (seated.move inside move).quiet

include run formed in
theorem stocked_call (room : Static.demand w s.thread.blocks batch ≤ s.thread.blocks.freeBlocks)
    (call : (call w config capacity world s).Run more t) : t.thread.Stocked w := by
  refine call_invariant run ?_ ?_ call
  · intro rest pc
    rw [formed] at pc
    cases pc
    exact room
  · intro more u thread queue _ _ inside stocked move
    exact (stocked.move inside move).quiet

variable {k : Nat} {r : Request} (place : batch[k]? = some r)

include run formed empty place in
/-- A result for the request is that of the job in its place. -/
theorem delivered_call {thread : Static σ} {queue : RequestQueue} {result : GenResult}
    (call : (call w config capacity world s).Run more t)
    (move : Static.Move w (config.construct w.caps) t.thread t.queue thread queue)
    (delivered : .setValue r.id result ∈ thread.port.log) :
    ∃ job, t.thread.jobs[k]? = some job ∧ job.state.finished = true ∧
      result = { job with state := job.state.closed }.result := by
  have reached := run.andThen call.of_guarded
  have listed := Event.mem_results.mpr delivered
  have delivers := move.delivers (settledStatic_run reached).silent
  generalize thread.port.log.filterMap Event.result? = results at listed delivers
  cases delivers with
  | nothing => cases listed
  | @delivered before job after pc here =>
    obtain ⟨own, same⟩ := Prod.mk.inj (List.mem_singleton.mp listed)
    have there : t.thread.jobs[before.length]? = some job := by
      rw [here, List.getElem?_append_right (Nat.le_refl _), Nat.sub_self]
      rfl
    have sits := (seated_call run formed empty call).request there
    -- no other request of the batch has this id
    have index : before.length = k := by
      have inside : before.length < (requestIds batch).length := by
        simpa [requestIds] using (List.getElem?_eq_some_iff.mp sits).1
      apply (List.getElem?_inj inside (batch_nodup run formed)).mp
      rw [requestIds, List.getElem?_map, List.getElem?_map, sits, place, Option.map_some, Option.map_some, own]
    rw [index] at there
    refine ⟨job, there, over_run reached before.length pc job (List.mem_of_getElem? there), ?_⟩
    rw [same, SequenceState.finish_state]

variable (samples : Samples w) (prompt : w.tokenize r.spec.prompt true ≠ [])
variable (room : Static.demand w s.thread.blocks batch ≤ s.thread.blocks.freeBlocks)

include run formed empty place prompt room

/-- Nothing happens to a request that the failure path spares. -/
theorem keeps_call
    (call : ((call w config capacity world s).guarded fun u _ _ => u.thread.Spares w k).Run more t) :
    t.thread.Keeps w samples.sampler samples.tracker (past ++ more) r k := by
  refine guarded_call_invariant run ?_ ?_ call
  · refine ⟨fun job here => ?_, fun job here => ?_⟩
    all_goals
      rw [empty] at here
      cases here
  · intro more u thread queue earlier reached settled inside keeps move spares
    have after := keeps.move settled.layout (over_run reached) (attending_run reached) inside
      (samples.honest _ _) (seated_call run formed empty earlier.of_guarded) place
      (stocked_call run formed room earlier.of_guarded) prompt spares move
    rw [← List.append_assoc]
    exact after.quiet

/-- What the request is delivered is what its job came to with nothing happening to it. -/
theorem kept_call
    (call : ((call w config capacity world s).guarded fun u _ _ => u.thread.Spares w k).Run more t) :
    ∀ result, .setValue r.id result ∈ more → ∃ seat : Seat Token, seat.Kept w samples.sampler r ∧
      seat.job.state.finished = true ∧ result = { seat.job with state := seat.job.state.closed }.result := by
  refine guarded_call_invariant run ?_ ?_ call
  · exact fun _ delivered => nomatch delivered
  · intro more u thread queue earlier _ _ _ kept move _ result delivered
    rcases List.mem_append.mp delivered with old | now
    · exact kept result old
    · obtain ⟨job, there, finished, own⟩ :=
        delivered_call run formed empty place earlier.of_guarded move now
      have keeps := keeps_call run formed empty place samples prompt room earlier
      exact ⟨_, keeps.seat job there, finished, own⟩

variable (call : ((call w config capacity world s).guarded fun u _ _ => u.thread.Spares w k).Run more t)
variable {result : GenResult} (delivered : .setValue r.id result ∈ more)

include call delivered

/-- The request does not fail, and gets what it would get on its own unless its client cancels it. -/
theorem gets_call :
    result.reason ≠ .error ∧ (result.reason ≠ .cancelled → r.Gets w samples.sampler result) := by
  obtain ⟨⟨job, due, held⟩, kept, finished, rfl⟩ :=
    kept_call run formed empty place samples prompt room call result delivered
  have same : { job with state := job.state.closed }.result.reason = job.state.reason :=
    SequenceState.closed_reason _
  rw [same]
  exact ⟨kept.clean.unfailed, kept.gets prompt finished⟩

include samples in
/-- Only its own client cancels it. -/
theorem uncancelled_call (silent : ∀ world, w.cancelled r.target world = false) :
    result.reason ≠ .cancelled := by
  obtain ⟨⟨job, due, held⟩, kept, _, rfl⟩ :=
    kept_call run formed empty place samples prompt room call result delivered
  have same : { job with state := job.state.closed }.result.reason = job.state.reason :=
    SequenceState.closed_reason _
  rw [same]
  exact kept.uncancelled silent

end Call

end Server

end MicroVllm
