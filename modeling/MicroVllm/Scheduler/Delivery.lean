import MicroVllm.Reference
import MicroVllm.Scheduler.Runs

/-! # Exactly-once delivery

Every accepted request is in one place at a time: in the queue, with the thread, or
among the promises that have been fulfilled.  The bookkeeping is by counting: for each
id, what the places hold adds up to how often the id was accepted.
-/

namespace MicroVllm

def requestIds (requests : List Request) : List Nat := requests.map Request.id

def owners (jobs : List Job) : List Nat := jobs.map fun job => job.request.id

@[simp] theorem requestIds_nil : requestIds [] = [] := rfl

@[simp] theorem requestIds_cons (request : Request) (requests : List Request) :
    requestIds (request :: requests) = request.id :: requestIds requests := rfl

@[simp] theorem requestIds_append (a b : List Request) :
    requestIds (a ++ b) = requestIds a ++ requestIds b := List.map_append

@[simp] theorem owners_nil : owners [] = [] := rfl

@[simp] theorem owners_cons (job : Job) (jobs : List Job) :
    owners (job :: jobs) = job.request.id :: owners jobs := rfl

@[simp] theorem owners_append (a b : List Job) : owners (a ++ b) = owners a ++ owners b :=
  List.map_append

theorem owners_of_same {jobs jobs' : List Job} (same : List.Forall₂ Job.Same jobs jobs') :
    owners jobs' = owners jobs := by
  induction same with
  | nil => rfl
  | cons head _ ih => rw [owners_cons, owners_cons, head.request, ih]

/-- The id whose promise an event fulfils. -/
def Event.fulfils : Event → Option Nat
  | .setValue id _ => some id
  | _ => none

@[simp] theorem Event.fulfils_setValue (id : Nat) (result : GenResult) :
    (Event.setValue id result).fulfils = some id := rfl

@[simp] theorem Event.fulfils_begin (seq : Nat) (params : SamplingParams) (ok : Bool) :
    (Event.beginSequence seq params ok).fulfils = none := rfl

@[simp] theorem Event.fulfils_copy (src dst : Nat) (n : Int) (ok : Bool) :
    (Event.copySequence src dst n ok).fulfils = none := rfl

@[simp] theorem Event.fulfils_decode (items : List BatchItem) (ok : Bool) :
    (Event.decode items ok).fulfils = none := rfl

@[simp] theorem Event.fulfils_release (seq : Nat) : (Event.releaseSequence seq).fulfils = none := rfl

@[simp] theorem Event.fulfils_stat (stat : Stat) (n : Nat) : (Event.stat stat n).fulfils = none := rfl

@[simp] theorem Event.fulfils_hit (seq : Nat) (prompt : List Token) (entry : Entry) :
    (Event.hit seq prompt entry).fulfils = none := rfl

@[simp] theorem Event.fulfils_index (source : Nat) (hash : UInt64) (entry : Entry)
    (displaced : Option Entry) : (Event.index source hash entry displaced).fulfils = none := rfl

@[simp] theorem Event.fulfils_preempt (id victim starved emitted : Nat) :
    (Event.preempt id victim starved emitted).fulfils = none := rfl

/-- The promises fulfilled so far, in order. -/
abbrev fulfilled (log : List Event) : List Nat := log.filterMap Event.fulfils

theorem Event.fulfils_of_toSink (sink : SinkRef) (e : Event) (call : e.ToSink sink) :
    e.fulfils = none := by
  cases e <;> first | rfl | cases call

theorem Event.fulfils_of_internal (e : Event) (inside : e.Internal) : e.fulfils = none := by
  cases e <;> first | rfl | cases inside

section Logs

variable {σ : Type} {w : World σ} {config : SchedulerConfig}

@[simp] theorem fulfilled_finish (s : SequenceState) (port : Port σ) :
    fulfilled (s.finish w port).2.log = fulfilled port.log :=
  Scheduler.filterMap_finish Event.fulfils_of_toSink s port

theorem fulfilled_accept {s s' : SequenceState} {step : GenStep} {port port' : Port σ}
    {goesOn : Bool} (accepted : s.accept w step port = (goesOn, s', port')) :
    fulfilled port'.log = fulfilled port.log :=
  Scheduler.filterMap_accept Event.fulfils_of_toSink accepted

theorem fulfilled_begin {slot : Nat} {params : SamplingParams} {port port' : Port σ}
    {result : Except String Unit} (begun : port.beginSequence w slot params = (result, port')) :
    fulfilled port'.log = fulfilled port.log := by
  simp [fulfilled, Port.filterMap_begin _ begun]

theorem fulfilled_copy {src dst : Nat} {n : Int} {port port' : Port σ}
    {result : Except String Unit} (copied : port.copySequence w src dst n = (result, port')) :
    fulfilled port'.log = fulfilled port.log := by
  simp [fulfilled, Port.filterMap_copy _ copied]

theorem fulfilled_decode {items : List BatchItem} {port port' : Port σ}
    {result : Except String (List GenStep)} (decoded : port.decode w items = (result, port')) :
    fulfilled port'.log = fulfilled port.log := by
  simp [fulfilled, Port.filterMap_decode _ decoded]

theorem fulfilled_reclaim {s s' : Scheduler σ} (evicted : s.reclaimDonorBlocks w = some s') :
    fulfilled s'.port.log = fulfilled s.port.log :=
  Scheduler.filterMap_reclaim Event.fulfils_of_internal evicted

theorem fulfilled_retire (job : Job) (s : Scheduler σ) :
    fulfilled (s.retire w config job).port.log = fulfilled s.port.log ++ [job.request.id] :=
  Scheduler.filterMap_retire Event.fulfils_of_toSink Event.fulfils_of_internal job s

end Logs

/-! ## Continuous mode -/

/-- The job the thread holds outside its lists. -/
def Pc.inHand : Pc → List Job
  | .reserve job => [job]
  | _ => []

namespace Continuous

variable {σ : Type} {w : World σ} {config : SchedulerConfig}

/-- The active jobs and the one in hand. -/
def crew (s : Continuous σ) : List Job := s.active ++ s.pc.inHand

/-- The ids the thread holds. -/
def held (s : Continuous σ) : List Nat :=
  requestIds s.pending ++ owners s.pc.inHand ++ owners s.active

/-- A move neither loses nor copies a request: what leaves the queue and the thread is
    fulfilled.  Only a thread that dies takes the request in hand with it. -/
theorem Move.conserves_or_crashes {s s' : Continuous σ} {q q' : RequestQueue}
    (move : Move w config s q s' q') (silent : s.port.log = []) (id : Nat) :
    (requestIds q'.queue).count id + s'.held.count id + (fulfilled s'.port.log).count id =
      (requestIds q.queue).count id + s.held.count id ∨
    ((requestIds q'.queue).count id + s'.held.count id + (fulfilled s'.port.log).count id ≤
      (requestIds q.queue).count id + s.held.count id ∧ ∃ message, s'.pc = .crashed message) := by
  have nothing : fulfilled s.port.log = [] := by rw [silent]; rfl
  cases move with
  -- from the queue to `pending`
  | take pc room front =>
    left
    simp [held, front, pc, Pc.inHand, nothing, List.count_cons]
    omega
  | leave pc | finish pc | acceptEnd pc | acceptStray pc | sweepKeep pc | sweepResolve pc
  | resolveEnd pc | resolveGone pc | resolveRoom pc | reclaimGone pc | reclaimEnd pc
  | preemptGone pc | preemptEnd pc | sweepLoop pc =>
    left
    simp [held, pc, Pc.inHand, nothing]
  | admitted pc =>
    left
    simp only [held, pc, nothing]
    split <;> simp [Pc.inHand]
  -- from `pending` to the hand, and on to the batch, back to `pending` or to the client
  | make pc next free begun =>
    left
    simp [held, pc, next, Pc.inHand, fulfilled_begin begun, nothing, List.count_cons]
    omega
  | makeCrash pc next free begun =>
    right
    simp [held, pc, next, Pc.inHand, fulfilled_begin begun, nothing, List.count_cons]
  | adoptCrash pc fits same copied =>
    right
    simp [held, pc, Pc.inHand, fulfilled_copy copied, nothing, List.count_cons]
  | giveUp pc short evicted =>
    left
    simp [held, pc, fulfilled_reclaim evicted, nothing]
  | reclaimDonor pc here full evicted =>
    left
    simp [held, pc, Pc.inHand, fulfilled_reclaim evicted, nothing]
  | reject pc unfinished full alone =>
    left
    simp [held, pc, Continuous.reject, Pc.inHand, nothing, List.count_cons]
    omega
  | defer pc unfinished full busy =>
    left
    simp [held, pc, Continuous.defer, busy, Pc.inHand, nothing, Job.reclaim, List.count_cons]
    omega
  | placeFailed pc | place pc =>
    left
    simp [held, pc, Continuous.place, Pc.inHand, nothing, List.count_cons]
  | adopt pc fits same caching found positive within copied =>
    left
    simp [held, pc, Continuous.place, Pc.inHand, nothing, fulfilled_copy copied, inherit,
      List.count_cons]
  -- the jobs of the batch keep their requests
  | buildNothing pc =>
    left
    simp [held, pc, Pc.inHand, owners_of_same (same_of_sameTable (same_build _ _ _)), nothing]
  | decode pc something returned =>
    left
    simp [held, pc, Pc.inHand, owners_of_same (same_of_sameTable (same_build _ _ _)),
      fulfilled_decode returned, nothing]
  | decodeFail pc something threw =>
    left
    simp only [held, owners_of_same (same_of_sameTable (same_failAll _ _)),
      owners_of_same (same_of_sameTable (same_build _ _ _)), pc]
    simp [failAll, Pc.inHand, fulfilled_decode threw, nothing]
  | acceptFail pc =>
    left
    simp only [held, owners_of_same (same_of_sameTable (same_failAll _ _)), pc]
    simp [failAll, Pc.inHand, nothing]
  | acceptFinish pc here accepted | acceptStarve pc here accepted | acceptGrow pc here accepted =>
    left
    simp [held, pc, Pc.inHand, here, fulfilled_accept accepted, nothing]
  | acceptPublish pc here accepted grown published =>
    left
    simp [held, pc, Pc.inHand, here, published, fulfilled_accept accepted, nothing]
  -- out of the batch, to the client or to `pending`
  | sweepRetire pc here finished =>
    left
    simp [held, pc, Pc.inHand, here, fulfilled_retire, nothing, List.count_cons]
    omega
  | resolveFail pc here large failed =>
    left
    subst failed
    simp [held, pc, Pc.inHand, here, nothing]
  | reclaimGrow pc here | preemptGrow pc here =>
    left
    simp [held, pc, Pc.inHand, here, nothing]
  | preemptEvict pc starving named full here =>
    left
    simp [held, pc, Pc.inHand, here, nothing, Job.reclaim, List.count_cons]
    omega

theorem Move.conserves {s s' : Continuous σ} {q q' : RequestQueue}
    (move : Move w config s q s' q') (silent : s.port.log = [])
    (alive : ∀ message, s'.pc ≠ .crashed message) (id : Nat) :
    (requestIds q'.queue).count id + s'.held.count id + (fulfilled s'.port.log).count id =
      (requestIds q.queue).count id + s.held.count id := by
  rcases move.conserves_or_crashes silent id with same | ⟨_, message, crashed⟩
  · exact same
  · exact absurd crashed (alive message)

end Continuous

/-! ## Results -/

/-- The promise an event fulfils, with what. -/
def Event.result? : Event → Option (Nat × GenResult)
  | .setValue id result => some (id, result)
  | _ => none

theorem Event.result?_of_toSink (sink : SinkRef) (e : Event) (call : e.ToSink sink) :
    e.result? = none := by
  cases e <;> first | rfl | cases call

theorem Event.result?_of_internal (e : Event) (inside : e.Internal) : e.result? = none := by
  cases e <;> first | rfl | cases inside

theorem Event.mem_results {log : List Event} {id : Nat} {result : GenResult} :
    (id, result) ∈ log.filterMap Event.result? ↔ Event.setValue id result ∈ log := by
  rw [List.mem_filterMap]
  constructor
  · rintro ⟨e, member, found⟩
    cases e with
    | setValue => cases found; exact member
    | _ => cases found
  · intro member
    exact ⟨_, member, rfl⟩

theorem mem_fulfilled {log : List Event} {id : Nat} :
    id ∈ fulfilled log ↔ ∃ result, .setValue id result ∈ log := by
  rw [List.mem_filterMap]
  constructor
  · rintro ⟨e, member, found⟩
    cases e with
    | setValue _ result =>
      cases found
      exact ⟨result, member⟩
    | _ => cases found
  · rintro ⟨result, member⟩
    exact ⟨_, member, rfl⟩

namespace Continuous

variable {σ : Type} {w : World σ} {config : SchedulerConfig}

/-- What a move can deliver: nothing, the result of a job that retires, or that of a job which
    does not fit into the empty pool. -/
inductive Delivers (w : World σ) (config : SchedulerConfig) (s s' : Continuous σ) :
    List (Nat × GenResult) → Prop where
  | nothing : Delivers w config s s' []
  | retired {before job after starved} (pc : s.pc = .sweep before.length starved)
      (here : s.active = before ++ job :: after) (finished : job.state.finished = true)
      (port : s'.port = (s.retire w config job).port) :
      Delivers w config s s'
        [(job.request.id, { job with state := (job.state.finish w s.port).1 }.result)]
  | rejected {job} (pc : s.pc = .reserve job) (unfinished : job.state.finished = false)
      (full : s.NoRoom w job) (alone : s.active = []) (port : s'.port = (s.reject w job).port) :
      Delivers w config s s' [(job.request.id, { job with state :=
        ((job.state.fail (s.rejectMessage job) .contextOverflow).finish w s.port).1 }.result)]

theorem Move.delivers {s s' : Continuous σ} {q q' : RequestQueue} (move : Move w config s q s' q')
    (silent : s.port.log = []) : Delivers w config s s' (s'.port.log.filterMap Event.result?) := by
  have nothing : s.port.log.filterMap Event.result? = [] := by rw [silent]; rfl
  have finishes := fun (state : SequenceState) (port : Port σ) =>
    Scheduler.filterMap_finish (w := w) Event.result?_of_toSink state port
  have quiet : s'.port.log.filterMap Event.result? = [] →
      Delivers w config s s' (s'.port.log.filterMap Event.result?) := fun none => none ▸ .nothing
  cases move with
  -- the two moves that fulfil a promise
  | sweepRetire pc here finished =>
    rw [Scheduler.filterMap_retire Event.result?_of_toSink Event.result?_of_internal, nothing]
    exact .retired pc here finished rfl
  | reject pc unfinished full alone =>
    have delivered : Delivers w config s (s.reject w _) _ := .rejected pc unfinished full alone rfl
    simpa [Continuous.reject, finishes, nothing, Event.result?] using delivered
  -- the others log other things, or nothing
  | make pc next free begun | makeCrash pc next free begun =>
    exact quiet (by simp [Port.filterMap_begin _ begun, nothing, Event.result?])
  | adopt pc fits same caching found positive within copied =>
    exact quiet (by simp [Continuous.place, Port.filterMap_copy _ copied, nothing, Event.result?])
  | adoptCrash pc fits same copied =>
    exact quiet (by simp [Port.filterMap_copy _ copied, nothing, Event.result?])
  | giveUp pc short evicted | reclaimDonor pc here full evicted =>
    exact quiet (by simp [Scheduler.filterMap_reclaim Event.result?_of_internal evicted, nothing])
  | defer => exact quiet (by simp [Continuous.defer, nothing, Event.result?])
  | placeFailed | place => exact quiet (by simp [Continuous.place, nothing, Event.result?])
  | decode pc something returned =>
    exact quiet (by simp [Port.filterMap_decode _ returned, nothing, Event.result?])
  | decodeFail pc something threw =>
    exact quiet (by simp [failAll, Port.filterMap_decode _ threw, nothing, Event.result?])
  | acceptFail => exact quiet (by simp [failAll, nothing])
  | acceptFinish pc here accepted =>
    refine quiet ?_
    simp [finishes, Scheduler.filterMap_accept Event.result?_of_toSink accepted, nothing]
  | acceptStarve pc here accepted | acceptGrow pc here accepted =>
    exact quiet (by simp [Scheduler.filterMap_accept Event.result?_of_toSink accepted, nothing])
  | acceptPublish pc here accepted =>
    refine quiet ?_
    simp [Scheduler.filterMap_accept Event.result?_of_toSink accepted, nothing, Event.result?]
  | sweepLoop => exact quiet (by simp [nothing, Event.result?])
  | resolveFail pc here large failed =>
    subst failed
    exact quiet (by simp [finishes, nothing])
  | preemptEvict => exact quiet (by simp [nothing, Event.result?])
  | _ => exact quiet nothing

/-- A result that is delivered, by the job it is of. -/
inductive Delivered (w : World σ) (s : Continuous σ) : Nat → GenResult → Prop where
  | retired {job} (inside : job ∈ s.crew) (finished : job.state.finished = true) :
      Delivered w s job.request.id { job with state := job.state.closed }.result
  | rejected {job} (inside : job ∈ s.crew) (pc : s.pc = .reserve job) (unfinished : job.state.finished = false)
      (full : s.NoRoom w job) (alone : s.active = []) : Delivered w s job.request.id
        { job with state := (job.state.fail (s.rejectMessage job) .contextOverflow).closed }.result

theorem Move.delivered {s s' : Continuous σ} {q q' : RequestQueue} (move : Move w config s q s' q')
    (silent : s.port.log = []) {id : Nat} {result : GenResult} (event : .setValue id result ∈ s'.port.log) :
    Delivered w s id result := by
  have listed := Event.mem_results.mpr event
  have delivers := move.delivers silent
  generalize s'.port.log.filterMap Event.result? = results at listed delivers
  cases delivers with
  | nothing => cases listed
  | retired pc here finished =>
    cases List.mem_singleton.mp listed
    rw [SequenceState.finish_state]
    exact .retired (by simp [crew, here]) finished
  | rejected pc unfinished full alone =>
    cases List.mem_singleton.mp listed
    rw [SequenceState.finish_state]
    exact .rejected (by simp [crew, pc, Pc.inHand]) pc unfinished full alone

end Continuous

/-! ## Static mode -/

namespace Static

variable {σ : Type} {w : World σ} {config : SchedulerConfig}

/-- The ids the thread holds. -/
def held (s : Static σ) : List Nat :=
  match s.pc with
  | .collect batch => requestIds batch
  | .make requests => owners s.jobs ++ requestIds requests
  | .deliver i => owners (s.jobs.drop i)
  | .prefill _ | .acceptPrefill .. | .decode | .acceptDecode .. => owners s.jobs
  | .done | .crashed _ => []

theorem owners_sliced (i nBatch : Nat) (jobs : List Job) :
    owners (jobs.take i ++ (buildSlice nBatch 0 false (jobs.drop i)).1) = owners jobs :=
  map_sliced (fun _ => rfl) i nBatch jobs

theorem owners_settleAll (message : String) (jobs : List Job) (port : Port σ) :
    owners (settleAll w message jobs port).1 = owners jobs :=
  map_settleAll message (fun _ _ => rfl) jobs port

theorem fulfilled_settleAll (message : String) (jobs : List Job) (port : Port σ) :
    fulfilled (settleAll w message jobs port).2.log = fulfilled port.log := by
  induction jobs generalizing port with
  | nil => rfl
  | cons job jobs ih => simp [settleAll, ih]

theorem held_failBatch (message : String) (s : Static σ) :
    (s.failBatch w message).held = owners s.jobs := by
  simp [failBatch, held, owners_settleAll]

theorem held_stay {s : Static σ} {leave : StaticPc} {stay : List Nat → List GenStep → StaticPc}
    {slots : List Nat} {steps : List GenStep} (loop : AcceptLoop leave stay)
    (pc : s.pc = stay slots steps) : s.held = owners s.jobs := by
  cases loop <;> simp [held, pc]

theorem held_leave {s : Static σ} {leave : StaticPc} {stay : List Nat → List GenStep → StaticPc}
    (loop : AcceptLoop leave stay) (pc : s.pc = leave) : s.held = owners s.jobs := by
  cases loop <;> simp [held, pc]

/-- What a move fulfils it takes from the front of what the thread holds, and what it takes from the
    queue goes to the back. -/
theorem Move.in_order {s s' : Static σ} {q q' : RequestQueue} (move : Move w config s q s' q')
    (silent : s.port.log = []) (alive : ∀ message, s'.pc ≠ .crashed message) :
    fulfilled s'.port.log ++ s'.held ++ requestIds q'.queue = s.held ++ requestIds q.queue := by
  have nothing : fulfilled s.port.log = [] := by rw [silent]; rfl
  cases move with
  | collect pc front => simp [held, pc, front, nothing]
  | finish pc | form pc | made pc | prefillEnd pc | decodeEnd pc => simp [held, pc, nothing]
  -- a request that is refused has a job like any other
  | makeCrash => exact absurd rfl (alive _)
  | makeFailed pc begun made | make pc begun made | makeFull pc begun made =>
    simp [held, pc, made, fulfilled_begin begun, nothing]
  | prefillSkip pc more sliced =>
    subst sliced
    simp only [held, pc, nothing, owners_sliced]
    simp
  | prefill pc more sliced something returned =>
    subst sliced
    simp only [held, pc, nothing, owners_sliced, fulfilled_decode returned]
    simp
  | prefillFail pc more sliced something threw =>
    subst sliced
    rw [held_failBatch]
    simp only [failBatch, fulfilled_settleAll, fulfilled_decode threw, nothing, owners_sliced]
    simp [held, pc]
  | decode pc those some returned => simp [held, pc, fulfilled_decode returned, nothing]
  | decodeFail pc those some threw =>
    rw [held_failBatch]
    simp [held, pc, failBatch, fulfilled_settleAll, fulfilled_decode threw, nothing]
  | acceptEnd loop pc =>
    rw [held_leave loop rfl, held_stay loop pc]
    simp [nothing]
  | acceptFail loop pc =>
    rw [held_failBatch, held_stay loop pc]
    simp [failBatch, fulfilled_settleAll, nothing]
  | acceptStray loop pc =>
    rw [held_stay loop rfl, held_stay loop pc]
    simp [nothing]
  | acceptGoOn loop pc here accepted =>
    rw [held_stay loop rfl, held_stay loop pc]
    simp [here, fulfilled_accept accepted, nothing]
  | acceptFinish loop pc here accepted notified =>
    subst notified
    rw [held_stay loop rfl, held_stay loop pc]
    simp [here, fulfilled_accept accepted, nothing]
  -- the final loop goes through the batch in the order it was collected in
  | deliver pc here notified =>
    subst notified
    simp [held, pc, here, nothing, List.drop_append, List.drop_eq_nil_of_le (Nat.le_succ _)]
  | deliverEnd pc through => simp [held, pc, nothing, List.drop_eq_nil_of_le through]

theorem Move.conserves {s s' : Static σ} {q q' : RequestQueue} (move : Move w config s q s' q')
    (silent : s.port.log = []) (alive : ∀ message, s'.pc ≠ .crashed message) (id : Nat) :
    (requestIds q'.queue).count id + s'.held.count id + (fulfilled s'.port.log).count id =
      (requestIds q.queue).count id + s.held.count id := by
  have counts := congrArg (List.count id) (move.in_order silent alive)
  simp only [List.count_append] at counts
  omega

/-- A thread that dies holds nothing. -/
theorem Move.conserves_or_dies {s s' : Static σ} {q q' : RequestQueue} (move : Move w config s q s' q')
    (silent : s.port.log = []) (id : Nat) :
    (requestIds q'.queue).count id + s'.held.count id + (fulfilled s'.port.log).count id ≤
      (requestIds q.queue).count id + s.held.count id := by
  by_cases alive : ∀ message, s'.pc ≠ .crashed message
  · exact Nat.le_of_eq (move.conserves silent alive id)
  · cases move with
    | makeCrash pc begun =>
      have nothing : fulfilled s.port.log = [] := by rw [silent]; rfl
      simp [held, fulfilled_begin begun, nothing]
    | acceptEnd loop | acceptStray loop | acceptGoOn loop | acceptFinish loop =>
      cases loop <;> simp at alive
    | _ => simp [failBatch] at alive

theorem results_settleAll (message : String) (jobs : List Job) (port : Port σ) :
    (settleAll w message jobs port).2.log.filterMap Event.result? = port.log.filterMap Event.result? := by
  induction jobs generalizing port with
  | nil => rfl
  | cons job jobs ih =>
    simp [settleAll, ih, Scheduler.filterMap_finish Event.result?_of_toSink, Event.result?]

/-- A result comes from the final loop. -/
inductive Delivers (w : World σ) (s : Static σ) : List (Nat × GenResult) → Prop where
  | nothing : Delivers w s []
  | delivered {before job after} (pc : s.pc = .deliver before.length)
      (here : s.jobs = before ++ job :: after) :
      Delivers w s [(job.request.id, { job with state := (job.state.finish w s.port).1 }.result)]

theorem Move.delivers {s s' : Static σ} {q q' : RequestQueue} (move : Move w config s q s' q')
    (silent : s.port.log = []) : Delivers w s (s'.port.log.filterMap Event.result?) := by
  have nothing : s.port.log.filterMap Event.result? = [] := by rw [silent]; rfl
  have quiet : s'.port.log.filterMap Event.result? = [] →
      Delivers w s (s'.port.log.filterMap Event.result?) := fun none => none ▸ .nothing
  cases move with
  | makeCrash pc begun | makeFailed pc begun | make pc begun | makeFull pc begun =>
    exact quiet (by simp [Port.filterMap_begin _ begun, nothing, Event.result?])
  | prefill pc more sliced something returned | decode pc those some returned =>
    exact quiet (by simp [Port.filterMap_decode _ returned, nothing, Event.result?])
  | prefillFail pc more sliced something threw | decodeFail pc those some threw =>
    exact quiet (by simp [failBatch, results_settleAll, Port.filterMap_decode _ threw, nothing, Event.result?])
  | acceptFail => exact quiet (by simp [failBatch, results_settleAll, nothing])
  | acceptGoOn loop pc here accepted =>
    exact quiet (by rw [Scheduler.filterMap_accept Event.result?_of_toSink accepted, nothing])
  | acceptFinish loop pc here accepted notified =>
    subst notified
    exact quiet (by simp [Scheduler.filterMap_finish Event.result?_of_toSink,
      Scheduler.filterMap_accept Event.result?_of_toSink accepted, nothing, Event.result?])
  | deliver pc here notified =>
    subst notified
    have delivered := Delivers.delivered (w := w) pc here
    simpa [Scheduler.filterMap_finish Event.result?_of_toSink, nothing, Event.result?, Job.result] using
      delivered
  | deliverEnd => exact quiet (by simp [nothing, Event.result?])
  | _ => exact quiet nothing

end Static

/-! ## Along a run -/

section Alive

variable {σ : Type} {w : World σ} {config : SchedulerConfig}

theorem World.OnlyDecodeThrows.begin_ne_error (engine : w.OnlyDecodeThrows) {seq : Nat}
    {params : SamplingParams} {port port' : Port σ} {message : String} :
    port.beginSequence w seq params ≠ (.error message, port') := by
  intro begun
  have ok := engine.begins seq params port.world
  rw [show (w.beginSequence seq params port.world).1 = .error message from congrArg Prod.fst begun] at ok
  cases ok

theorem World.OnlyDecodeThrows.copy_ne_error (engine : w.OnlyDecodeThrows) {src dst : Nat} {n : Int}
    {port port' : Port σ} {message : String} :
    port.copySequence w src dst n ≠ (.error message, port') := by
  intro copied
  have ok := engine.copies src dst n port.world
  rw [show (w.copySequence src dst n port.world).1 = .error message from congrArg Prod.fst copied] at ok
  cases ok

theorem Continuous.Move.alive {s s' : Continuous σ} {q q' : RequestQueue}
    (move : Continuous.Move w config s q s' q') (engine : w.OnlyDecodeThrows) :
    ∀ message, s'.pc ≠ .crashed message := by
  intro message
  cases move with
  | makeCrash pc next free begun => exact absurd begun engine.begin_ne_error
  | adoptCrash pc fits same copied => exact absurd copied engine.copy_ne_error
  | take pc | giveUp pc | sweepRetire pc | reclaimDonor pc | preemptEvict pc => simp [pc]
  | admitted =>
    simp only
    split <;> simp
  | defer =>
    simp only [Continuous.defer]
    split <;> simp
  | reject => simp [Continuous.reject]
  | placeFailed | place | adopt => simp [Continuous.place]
  | decodeFail | acceptFail => simp [Continuous.failAll]
  | _ => simp

theorem Static.Move.alive {s s' : Static σ} {q q' : RequestQueue}
    (move : Static.Move w config s q s' q') (engine : w.OnlyDecodeThrows) :
    ∀ message, s'.pc ≠ .crashed message := by
  intro message
  cases move with
  | makeCrash pc begun => exact absurd begun engine.begin_ne_error
  | prefillFail | decodeFail | acceptFail => simp [Static.failBatch]
  | acceptEnd loop => cases loop <;> simp
  | acceptStray loop => cases loop <;> simp
  | acceptGoOn loop => cases loop <;> simp
  | acceptFinish loop => cases loop <;> simp
  | _ => simp

end Alive

namespace Server

variable {σ τ : Type} {w : World σ} {config : SchedulerConfig} {capacity : Nat} {world : σ}

/-- Everything accepted is in the queue, with the thread or fulfilled, once. -/
structure Accounted (s : Server τ) (held : List Nat) (past : List Event) : Prop where
  nodup : (requestIds s.accepted).Nodup
  once : ∀ id, (requestIds s.queue.queue).count id + held.count id + (fulfilled past).count id =
    (requestIds s.accepted).count id

theorem Accounted.push {s : Server τ} {held : List Nat} {past : List Event} (request : Request)
    (fresh : request.id ∉ s.accepted.map Request.id) (accounted : s.Accounted held past) :
    (s.push request).Accounted held past := by
  simp only [Server.push, RequestQueue.tryPush]
  split
  · exact ⟨accounted.nodup, accounted.once⟩
  · refine ⟨?_, ?_⟩
    · simp only [if_true, requestIds_append, requestIds_cons, requestIds_nil]
      refine accounted.nodup.append (by simp) ?_
      simpa [requestIds] using fresh
    · intro id
      have before := accounted.once id
      simp only [if_true, requestIds_append, requestIds_cons, requestIds_nil, List.count_append]
      omega

theorem Accounted.perm {s : Server τ} {held : List Nat} {past : List Event}
    (accounted : s.Accounted held past) :
    (requestIds s.queue.queue ++ held ++ fulfilled past).Perm (requestIds s.accepted) := by
  rw [List.perm_iff_count]
  intro id
  simpa [Nat.add_assoc] using accounted.once id

theorem Accounted.fulfilled_nodup {s : Server τ} {held : List Nat} {past : List Event}
    (accounted : s.Accounted held past) : (fulfilled past).Nodup :=
  (List.nodup_append.mp (accounted.perm.nodup_iff.mpr accounted.nodup)).2.1

theorem Accounted.advance {s : Server τ} {held held' : List Nat} {past events : List Event}
    {thread : τ} {queue : RequestQueue} (accounted : s.Accounted held past)
    (moved : ∀ id, (requestIds queue.queue).count id + held'.count id + (fulfilled events).count id =
      (requestIds s.queue.queue).count id + held.count id) :
    Accounted { s with thread := thread, queue := queue } held' (past ++ events) where
  nodup := accounted.nodup
  once id := by
    have before := accounted.once id
    have change := moved id
    simp only [fulfilled, List.filterMap_append, List.count_append] at before change ⊢
    omega

/-- With any engine: nothing is held or fulfilled more often than it was accepted. -/
structure Counted (s : Server τ) (held : List Nat) (past : List Event) : Prop where
  nodup : (requestIds s.accepted).Nodup
  counts : ∀ id, (requestIds s.queue.queue).count id + held.count id + (fulfilled past).count id ≤
    (requestIds s.accepted).count id

namespace Counted

variable {s : Server τ} {held held' : List Nat} {past events : List Event}

theorem push (request : Request) (fresh : request.id ∉ s.accepted.map Request.id)
    (counted : s.Counted held past) : (s.push request).Counted held past := by
  simp only [Server.push, RequestQueue.tryPush]
  split
  · exact ⟨counted.nodup, counted.counts⟩
  · constructor
    · simp only [if_true, requestIds_append, requestIds_cons, requestIds_nil]
      apply counted.nodup.append (by simp)
      simpa [requestIds] using fresh
    · intro id
      have before := counted.counts id
      simp only [if_true, requestIds_append, requestIds_cons, requestIds_nil, List.count_append]
      omega

theorem advance {thread : τ} {queue : RequestQueue} (counted : s.Counted held past)
    (moved : ∀ id, (requestIds queue.queue).count id + held'.count id + (fulfilled events).count id ≤
      (requestIds s.queue.queue).count id + held.count id) :
    Counted { s with thread := thread, queue := queue } held' (past ++ events) where
  nodup := counted.nodup
  counts id := by
    have before := counted.counts id
    have change := moved id
    simp only [fulfilled, List.filterMap_append, List.count_append] at before change ⊢
    omega

/-- So nothing is in two places, or fulfilled twice, or both held and fulfilled. -/
theorem once (counted : s.Counted held past) :
    (requestIds s.queue.queue ++ held ++ fulfilled past).Nodup := by
  apply List.nodup_iff_count_le_one.mpr
  intro id
  have atMost := List.nodup_iff_count_le_one.mp counted.nodup id
  have less := counted.counts id
  simp only [List.count_append]
  omega

end Counted

/-- What no move multiplies is counted along every run. -/
theorem Moves.counted_run {k : Moves τ} {thread : τ} (settled : k.Settled thread) (held : τ → List Nat)
    (none : held thread = [])
    (moved : ∀ {t u q q'}, k.Settled t → k.Move t q u q' → ∀ id, (requestIds q'.queue).count id +
      (held (k.quiet u)).count id + (fulfilled (k.log u)).count id ≤
        (requestIds q.queue).count id + (held t).count id)
    {past : List Event} {s : Server τ} (run : (machine k.step thread capacity).Run past s) :
    s.Counted (held s.thread) past := by
  refine run_invariant settled ?_ ?_ ?_ ?_ run.guarded_true
  · exact ⟨by simp, by simp [none]⟩
  · exact fun past s request fresh counted => counted.push request fresh
  · exact fun _ _ counted => ⟨counted.nodup, counted.counts⟩
  · exact fun _ _ _ _ _ settled counted move _ => counted.advance (moved settled move)

theorem counts_run {past : List Event} {s : Server (Continuous σ)}
    (run : (continuous w config capacity world).Run past s) : s.Counted s.thread.held past := by
  refine Moves.counted_run (settled_start w config world) Continuous.held rfl ?_ run
  intro t u q q' settled move id
  have change := Continuous.Move.conserves_or_crashes move settled.silent id
  simp only [continuousMoves, Continuous.quiet, Continuous.held] at change ⊢
  omega

theorem once_run {past : List Event} {s : Server (Continuous σ)}
    (run : (continuous w config capacity world).Run past s) :
    (requestIds s.queue.queue ++ s.thread.held ++ fulfilled past).Nodup := (counts_run run).once

theorem static_counts_run {past : List Event} {s : Server (Static σ)}
    (run : (static w config capacity world).Run past s) : s.Counted s.thread.held past :=
  Moves.counted_run (settledStatic_start w config world) Static.held rfl
    (fun settled move id => Static.Move.conserves_or_dies move settled.silent id) run

theorem accepted_of_fulfilled {past : List Event} {s : Server (Continuous σ)}
    (run : (continuous w config capacity world).Run past s) {id : Nat} {result : GenResult}
    (delivered : Event.setValue id result ∈ past) :
    id ∈ requestIds s.accepted ∧ id ∉ requestIds s.queue.queue ∧ id ∉ s.thread.held := by
  have member : id ∈ fulfilled past := mem_fulfilled.mpr ⟨result, delivered⟩
  obtain ⟨nodup, counts⟩ := counts_run run
  have atMost := List.nodup_iff_count_le_one.mp nodup id
  have less := counts id
  have positive := List.count_pos_iff.mpr member
  refine ⟨List.count_pos_iff.mp (by omega), ?_, ?_⟩
  · exact fun queued => absurd (List.count_pos_iff.mpr queued) (by omega)
  · exact fun held => absurd (List.count_pos_iff.mpr held) (by omega)

/-- What it means for a thread to have returned with nothing left to do. -/
structure Drained (s : Server τ) (held : List Nat) : Prop where
  queue : s.queue.queue = []
  closed : s.queue.closed = true
  held : held = []

theorem Drained.push {s : Server τ} {held : List Nat} (drained : s.Drained held) (request : Request) :
    (s.push request).Drained held where
  queue := by simp [Server.push, RequestQueue.tryPush, drained.closed, drained.queue]
  closed := by simp [Server.push, RequestQueue.tryPush, drained.closed]
  held := drained.held

theorem Drained.close {s : Server τ} {held : List Nat} (drained : s.Drained held) :
    s.close.Drained held :=
  ⟨drained.queue, rfl, drained.held⟩

theorem Accounted.drained {s : Server τ} {held : List Nat} {past : List Event}
    (accounted : s.Accounted held past) (drained : s.Drained held) :
    (fulfilled past).Perm (requestIds s.accepted) ∧
      ∀ request, (s.queue.tryPush request).1 = false := by
  constructor
  · simpa [drained.queue, drained.held] using accounted.perm
  · simp [RequestQueue.tryPush, drained.closed]

/-- A result in the log was delivered in some state of the run. -/
theorem delivered_run {ok : Server (Continuous σ) → List Event → Server (Continuous σ) → Prop}
    {past : List Event} {s : Server (Continuous σ)} (run : ((continuous w config capacity world).guarded ok).Run past s)
    {id : Nat} {result : GenResult} (delivered : .setValue id result ∈ past) :
    ∃ earlier t events u, ((continuous w config capacity world).guarded ok).Run earlier t ∧
      t.accepted ⊆ s.accepted ∧ Settled w (config.construct w.caps) t.thread ∧
      Continuous.Delivered w t.thread id result ∧ ok t events u := by
  revert delivered
  refine continuous_invariant ?_ ?_ ?_ ?_ run
  · intro delivered
    cases delivered
  · intro past s request _ before delivered
    obtain ⟨earlier, t, events, u, ran, fewer, rest⟩ := before delivered
    exact ⟨earlier, t, events, u, ran, List.Subset.trans fewer (push_accepted_subset request s), rest⟩
  · exact fun _ _ before => before
  · intro past s thread queue ran settled before move guarded delivered
    rcases List.mem_append.mp delivered with old | now
    · exact before old
    · exact ⟨past, s, _, _, ran, List.Subset.refl _, settled, move.delivered settled.silent now, guarded⟩

theorem continuous_alive (engine : w.OnlyDecodeThrows) {past : List Event}
    {s : Server (Continuous σ)} (run : (continuous w config capacity world).Run past s) :
    ∀ message, s.thread.pc ≠ .crashed message :=
  continuous_thread_invariant (by simp [Continuous.start]) (fun _ _ _ _ _ _ _ move _ => move.alive engine)
    run.guarded_true

theorem static_alive (engine : w.OnlyDecodeThrows) {past : List Event}
    {s : Server (Static σ)} (run : (static w config capacity world).Run past s) :
    ∀ message, s.thread.pc ≠ .crashed message :=
  static_thread_invariant (by simp [Static.start]) (fun _ _ _ _ _ _ _ move _ => move.alive engine)
    run.guarded_true

/-- If every move conserves what is accepted, and the thread returns with nothing left to do, everything that is
    accepted can be accounted for. -/
theorem Moves.accounted_run {k : Moves τ} {thread : τ} (settled : k.Settled thread) (held : τ → List Nat)
    (returned : τ → Prop) (none : held thread = []) (running : ¬ returned thread)
    (moved : ∀ {t u q q'}, k.Settled t → k.Move t q u q' → ∀ id, (requestIds q'.queue).count id +
      (held (k.quiet u)).count id + (fulfilled (k.log u)).count id =
        (requestIds q.queue).count id + (held t).count id)
    (drained : ∀ {t u q q'}, k.Move t q u q' → returned (k.quiet u) →
      q'.queue = [] ∧ q'.closed = true ∧ held (k.quiet u) = [])
    {past : List Event} {s : Server τ} (run : (machine k.step thread capacity).Run past s) :
    s.Accounted (held s.thread) past ∧ (returned s.thread → s.Drained (held s.thread)) := by
  refine run_invariant settled ?_ ?_ ?_ ?_ run.guarded_true
  · exact ⟨⟨by simp, by simp [none]⟩, fun done => absurd done running⟩
  · rintro past s request fresh ⟨accounted, returned⟩
    exact ⟨accounted.push request fresh, fun done => (returned done).push request⟩
  · rintro past s ⟨accounted, returned⟩
    exact ⟨⟨accounted.nodup, accounted.once⟩, fun done => (returned done).close⟩
  · rintro past s u q _ settled ⟨accounted, _⟩ move _
    refine ⟨accounted.advance (moved settled move), fun done => ?_⟩
    obtain ⟨empty, closed, nothing⟩ := drained move done
    exact ⟨empty, closed, nothing⟩

theorem continuous_accounted (engine : w.OnlyDecodeThrows) {past : List Event}
    {s : Server (Continuous σ)} (run : (continuous w config capacity world).Run past s) :
    s.Accounted s.thread.held past ∧ (s.thread.pc = .done → s.Drained s.thread.held) := by
  refine Moves.accounted_run (settled_start w config world) Continuous.held (·.pc = .done) rfl
    (by simp [Continuous.start]) ?_ ?_ run
  · exact fun settled move id =>
      Continuous.Move.conserves move settled.silent (Continuous.Move.alive move engine) id
  · intro t u q q' move done
    obtain ⟨active, pending, empty, closed⟩ := Continuous.Move.returned move done
    have returned : u.pc = .done := done
    refine ⟨empty, closed, ?_⟩
    simp [continuousMoves, Continuous.quiet, Continuous.held, Pc.inHand, active, pending, returned]

theorem static_accounted (engine : w.OnlyDecodeThrows) {past : List Event}
    {s : Server (Static σ)} (run : (static w config capacity world).Run past s) :
    s.Accounted s.thread.held past ∧ (s.thread.pc = .done → s.Drained s.thread.held) := by
  refine Moves.accounted_run (settledStatic_start w config world) Static.held (·.pc = .done) rfl
    (by simp [Static.start]) ?_ ?_ run
  · exact fun settled move id => Static.Move.conserves move settled.silent (Static.Move.alive move engine) id
  · intro t u q q' move done
    have move : Static.Move w (config.construct w.caps) t q u q' := move
    cases move with
    | finish pc empty closed => exact ⟨empty, closed, rfl⟩
    | acceptEnd loop | acceptStray loop | acceptGoOn loop | acceptFinish loop =>
      cases loop <;> cases done
    | _ => cases done

end Server

/-- With an engine that throws in `decode` only, in both modes: at every step each accepted
    request is in the queue, with the thread (at a loop boundary: in `pending` or `active`)
    or fulfilled, exactly one of them; the thread leaves its loop only by returning; and when it
    returns every accepted request has been fulfilled and the queue takes no other.  A
    request that `try_push` rejects is the caller's as it was. -/
theorem exactly_once_delivery {σ : Type} (w : World σ) (config : SchedulerConfig) (capacity : Nat)
    (world : σ) (engine : w.OnlyDecodeThrows) :
    (∀ past (s : Server (Continuous σ)), (Server.continuous w config capacity world).Run past s →
      (requestIds s.accepted).Nodup ∧ (fulfilled past).Nodup ∧
      (requestIds s.queue.queue ++ s.thread.held ++ fulfilled past).Perm (requestIds s.accepted) ∧
      (s.thread.pc = .takeWork →
        s.thread.held = requestIds s.thread.pending ++ owners s.thread.active) ∧
      (∀ message, s.thread.pc ≠ .crashed message) ∧
      (s.thread.pc = .done → (fulfilled past).Perm (requestIds s.accepted) ∧
        ∀ request, (s.queue.tryPush request).1 = false)) ∧
    (∀ past (s : Server (Static σ)), (Server.static w config capacity world).Run past s →
      (requestIds s.accepted).Nodup ∧ (fulfilled past).Nodup ∧
      (requestIds s.queue.queue ++ s.thread.held ++ fulfilled past).Perm (requestIds s.accepted) ∧
      (s.thread.pc = .collect [] → s.thread.held = []) ∧
      (∀ message, s.thread.pc ≠ .crashed message) ∧
      (s.thread.pc = .done → (fulfilled past).Perm (requestIds s.accepted) ∧
        ∀ request, (s.queue.tryPush request).1 = false)) ∧
    ∀ (q : RequestQueue) request, (q.tryPush request).1 = false →
      (q.tryPush request).2 = (some request, q) := by
  refine ⟨?_, ?_, ?_⟩
  · intro past s run
    obtain ⟨accounted, returned⟩ := Server.continuous_accounted engine run
    refine ⟨accounted.nodup, accounted.fulfilled_nodup, accounted.perm, ?_,
      Server.continuous_alive engine run, ?_⟩
    · intro boundary
      simp [Continuous.held, boundary, Pc.inHand]
    · intro done
      exact accounted.drained (returned done)
  · intro past s run
    obtain ⟨accounted, returned⟩ := Server.static_accounted engine run
    refine ⟨accounted.nodup, accounted.fulfilled_nodup, accounted.perm, ?_,
      Server.static_alive engine run, ?_⟩
    · intro boundary
      simp [Static.held, boundary]
    · intro done
      exact accounted.drained (returned done)
  · intro q request
    simp only [RequestQueue.tryPush]
    split <;> simp

/-- Two requests through the reference engine, to the end. -/
theorem exactly_once_delivery_letter :
    Script.letter.world.OnlyDecodeThrows ∧
      ∃ past s, (Server.continuous Script.letter.world {} 4 fun _ => none).Run past s ∧
        s.thread.pc = .done ∧ requestIds s.accepted = [0, 1] ∧
        (fulfilled past).Perm (requestIds s.accepted) := by
  have engine := Script.letter.world_onlyDecodeThrows
  obtain ⟨past, s, run, done, accepted⟩ : ∃ past s,
      (Server.continuous Script.letter.world {} 4 fun _ => none).Run past s ∧
        s.thread.pc = .done ∧ requestIds s.accepted = [0, 1] :=
    Server.exists_run ([.push { id := 0, spec := { prompt := [1, 2, 3], maxTokens := 2 } },
      .push { id := 1, spec := { prompt := [4, 5], maxTokens := 3 } }, .close] ++
      List.replicate 54 .run) rfl rfl (by decide +kernel)
  have delivered := ((exactly_once_delivery Script.letter.world {} 4 (fun _ => none) engine).1
    past s run).2.2.2.2.2 done
  exact ⟨engine, past, s, run, done, accepted, delivered.1⟩

end MicroVllm
