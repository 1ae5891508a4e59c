import MicroVllm.Lib.Monitor
import MicroVllm.RequestQueue
import MicroVllm.Sinks

/-! # Behind the mutex

`RequestQueue` and `StreamingSink` are shared between threads, and each of them has a mutex and a condition
variable.  Here their methods are taken apart into what they do while they hold the mutex and what they do
before and after.  Seen from outside they are the functions that the rest of the development uses, one step
each; and the thread that waits in `pop` or `next` sleeps only as long as there is nothing for it.
-/

namespace MicroVllm

open Monitor Transition

namespace RequestQueue

inductive Op where
  | tryPush (request : Request)
  | pop
  | tryPop
  | pushFront (request : Request)
  | close
  | closed
  | size
deriving DecidableEq, Repr

inductive Result where
  | pushed (taken : Bool)
  | popped (request : Option Request)
  | done
  | answer (closed : Bool)
  | count (n : Nat)
deriving DecidableEq, Repr

/-- The end of `pop` and `try_pop`. -/
def takeFront : Section RequestQueue Result :=
  .act id fun q =>
    match q.queue with
    | [] => .leave (.popped none) .nobody
    | request :: _ => .act (fun q => { q with queue := q.queue.tail }) fun _ => .leave (.popped request) .nobody

def methods : Methods RequestQueue Op Result where
  ready
    | .pop, q => !q.queue.isEmpty || q.closed
    | _, _ => true
  body
    | .tryPush request =>
      .act id fun q =>
        if q.closed then .leave (.pushed false) .nobody
        else .act id fun q =>
          if q.queue.length ≥ q.capacity then .leave (.pushed false) .nobody
          else .act (fun q => { q with queue := q.queue ++ [request] }) fun _ => .leave (.pushed true) .one
    | .pop => takeFront
    | .tryPop => takeFront
    | .pushFront request =>
      .act id fun q =>
        if q.closed then .leave (.pushed false) .nobody
        else .act (fun q => { q with queue := request :: q.queue }) fun _ => .leave (.pushed true) .one
    | .close => .act (fun q => { q with closed := true }) fun _ => .leave .done .all
    | .closed => .act id fun q => .leave (.answer q.closed) .nobody
    | .size => .act id fun q => .leave (.count q.queue.length) .nobody

/-- A call as one step. -/
inductive Does (q : RequestQueue) : Op → Result → RequestQueue → Prop where
  | tryPush (request : Request) : Does q (.tryPush request) (.pushed (q.tryPush request).1) (q.tryPush request).2.2
  | front {request rest} (popped : q.pop = .front request rest) : Does q .pop (.popped (some request)) rest
  | drained (popped : q.pop = .drained) : Does q .pop (.popped none) q
  | tryFront {request rest} (popped : q.tryPop = some (request, rest)) : Does q .tryPop (.popped (some request)) rest
  | tryEmpty (popped : q.tryPop = none) : Does q .tryPop (.popped none) q
  | pushFront (request : Request) :
      Does q (.pushFront request) (.pushed (q.pushFront request).1) (q.pushFront request).2.2
  | close : Does q .close .done q.close
  | closed : Does q .closed (.answer q.closed) q
  | size : Does q .size (.count q.queue.length) q

theorem run_tryPush (q : RequestQueue) (request : Request) :
    (methods.body (.tryPush request)).run q =
      ((.pushed (q.tryPush request).1, if (q.tryPush request).1 then .one else .nobody),
        (q.tryPush request).2.2) := by
  by_cases closed : q.closed = true
  · simp [methods, Section.run, tryPush, closed]
  · by_cases full : q.queue.length ≥ q.capacity <;> simp [methods, Section.run, tryPush, closed, full]

theorem run_pushFront (q : RequestQueue) (request : Request) :
    (methods.body (.pushFront request)).run q =
      ((.pushed (q.pushFront request).1, if (q.pushFront request).1 then .one else .nobody),
        (q.pushFront request).2.2) := by
  by_cases closed : q.closed = true <;> simp [methods, Section.run, pushFront, closed]

theorem run_takeFront (q : RequestQueue) :
    takeFront.run q = match q.tryPop with
      | some (request, rest) => ((.popped (some request), .nobody), rest)
      | none => ((.popped none, .nobody), q) := by
  obtain ⟨queue, capacity, closed⟩ := q
  cases queue <;> rfl

theorem ready_pop (q : RequestQueue) : methods.ready .pop q = false ↔ q.pop = .waits := by
  obtain ⟨queue, capacity, closed⟩ := q
  cases queue <;> cases closed <;> simp [methods, pop]

/-- What a method does under the mutex is what the function of that name does. -/
theorem does_of_run {q q' : RequestQueue} {op : Op} {result : Result} {wake : Wake}
    (ready : methods.ready op q = true) (ran : (methods.body op).run q = ((result, wake), q')) :
    Does q op result q' := by
  cases op with
  | tryPush request =>
    rw [run_tryPush] at ran
    cases ran
    exact .tryPush request
  | pushFront request =>
    rw [run_pushFront] at ran
    cases ran
    exact .pushFront request
  | pop =>
    have ran : takeFront.run q = ((result, wake), q') := ran
    rw [run_takeFront] at ran
    obtain ⟨queue, capacity, closed⟩ := q
    cases queue with
    | cons request rest =>
      cases ran
      exact .front rfl
    | nil =>
      cases ran
      have closed : closed = true := ready
      exact .drained (if_pos closed)
  | tryPop =>
    have ran : takeFront.run q = ((result, wake), q') := ran
    rw [run_takeFront] at ran
    obtain ⟨queue, capacity, closed⟩ := q
    cases queue with
    | cons request rest =>
      cases ran
      exact .tryFront rfl
    | nil =>
      cases ran
      exact .tryEmpty rfl
  | close =>
    cases ran
    exact .close
  | closed =>
    cases ran
    exact .closed
  | size =>
    cases ran
    exact .size

/-- Only `pop` waits. -/
theorem waits_pop {op : Op} {q : RequestQueue} (unready : methods.ready op q = false) : op = .pop := by
  cases op <;> simp_all [methods]

/-- A call that wakes nobody leaves an empty queue as it is. -/
theorem run_silent {q q' : RequestQueue} {op : Op} {result : Result} (empty : q.queue = [])
    (ran : (methods.body op).run q = ((result, .nobody), q')) : q' = q := by
  cases op with
  | tryPush request =>
    rw [run_tryPush] at ran
    unfold tryPush at ran
    split at ran <;> simp_all
  | pushFront request =>
    rw [run_pushFront] at ran
    unfold pushFront at ran
    split at ran <;> simp_all
  | pop | tryPop =>
    have ran : takeFront.run q = ((result, .nobody), q') := ran
    simp only [run_takeFront, tryPop, empty, Prod.mk.injEq] at ran
    exact ran.2.symm
  | close => cases ran
  | closed | size =>
    cases ran
    rfl

/-- Whoever makes the queue one that can be taken from wakes somebody. -/
theorem alerts : Alerts methods := by
  intro op op' q result wake q' unready ran ready silent
  cases waits_pop unready
  have empty : q.queue = [] := by simp_all [methods]
  rw [silent] at ran
  rw [run_silent empty ran, unready] at ready
  cases ready

/-- Two threads, of which `true` is the one that pops. -/
def scheduler (i : Bool) (op : Op) : Prop := i = true ↔ op = .pop

theorem scheduler_pop : scheduler true .pop := ⟨fun _ => rfl, fun _ => rfl⟩

theorem scheduler_single (i j : Bool) (mine : scheduler i .pop) (yours : scheduler j .pop) : i = j :=
  (mine.2 rfl).trans (yours.2 rfl).symm

theorem scheduler_push (request : Request) : scheduler false (.tryPush request) := by
  simp [scheduler]

/-- A queue without room refuses a request, and then the scheduler finds nothing to take. -/
theorem refusal : ∃ past s, (machine methods scheduler { capacity := 0 }).Run past s ∧ past ≠ [] ∧
    s.phase false = .idle ∧ s.phase true = .asleep .pop := by
  have start : (machine methods scheduler { capacity := 0 }).Run [] _ := .start rfl
  have push := start.next (Step.call (i := false) rfl (scheduler_push { id := 0, spec := { prompt := [] } }))
  have acquired := push.next (Step.turn false (.acquire rfl rfl))
  have entered := acquired.next (Step.turn false (.enter rfl rfl))
  have unclosed := entered.next (Step.turn false (.act rfl))
  have full := unclosed.next (Step.turn false (.act rfl))
  have refused := full.next (Step.turn false (.leave rfl))
  have returned := refused.next (Step.turn false (.returns rfl))
  have pop := returned.next (Step.call (i := true) rfl scheduler_pop)
  have acquired' := pop.next (Step.turn true (.acquire rfl rfl))
  have asleep := acquired'.next (Step.turn true (.sleep rfl rfl))
  exact ⟨_, _, asleep, nofun, rfl, rfl⟩

end RequestQueue

namespace StreamingSink

inductive Op where
  | push (e : Event)
  | next
deriving DecidableEq, Repr

inductive Result where
  | done
  | event (e : Event)
  | undefined
deriving DecidableEq, Repr

def methods : Methods StreamingSink Op Result where
  ready
    | .push _, _ => true
    | .next, sink => !sink.events.isEmpty
  body
    | .push e => .act (fun sink => { events := sink.events ++ [e] }) fun _ => .leave .done .one
    | .next =>
      .act id fun sink =>
        match sink.events with
        | e :: _ => .act (fun sink => { events := sink.events.tail }) fun _ => .leave (.event e) .nobody
        -- the front of an empty deque
        | [] => .leave .undefined .nobody

/-- A call as one step; no call is undefined. -/
inductive Does (sink : StreamingSink) : Op → Result → StreamingSink → Prop where
  | push (e : Event) : Does sink (.push e) .done (sink.push e)
  | next {e rest} (taken : sink.next = some (e, rest)) : Does sink .next (.event e) rest

theorem does_of_run {sink sink' : StreamingSink} {op : Op} {result : Result} {wake : Wake}
    (ready : methods.ready op sink = true) (ran : (methods.body op).run sink = ((result, wake), sink')) :
    Does sink op result sink' := by
  cases op with
  | push e =>
    cases ran
    exact .push e
  | next =>
    obtain ⟨events⟩ := sink
    cases events with
    | nil => cases ready
    | cons e events =>
      cases ran
      exact .next rfl

theorem ready_next (sink : StreamingSink) : methods.ready .next sink = false ↔ sink.next = none := by
  obtain ⟨events⟩ := sink
  cases events <;> simp [methods, next]

/-- Only `next` waits. -/
theorem waits_next {op : Op} {sink : StreamingSink} (unready : methods.ready op sink = false) : op = .next := by
  cases op <;> simp_all [methods]

/-- Whoever puts the first event in wakes somebody. -/
theorem alerts : Alerts methods := by
  intro op op' sink result wake sink' unready ran ready silent
  cases waits_next unready
  rw [silent] at ran
  obtain ⟨events⟩ := sink
  cases op' with
  | push e => cases ran
  | next =>
    cases events with
    | nil =>
      cases ran
      cases ready
    | cons e events => cases unready

/-- Two threads, of which `true` is the one that takes events. -/
def handler (i : Bool) (op : Op) : Prop := i = true ↔ op = .next

theorem handler_next : handler true .next := ⟨fun _ => rfl, fun _ => rfl⟩

theorem handler_single (i j : Bool) (mine : handler i .next) (yours : handler j .next) : i = j :=
  (mine.2 rfl).trans (yours.2 rfl).symm

theorem handler_push (e : Event) : handler false (.push e) := by
  simp [handler]

/-- The handler sleeps until there is an event, and takes it. -/
theorem handover : ∃ past s, (machine methods handler {}).Run past s ∧ past ≠ [] ∧
    s.phase false = .idle ∧ s.phase true = .idle := by
  have start : (machine methods handler {}).Run [] _ := .start rfl
  have next := start.next (Step.call (i := true) rfl handler_next)
  have acquired := next.next (Step.turn true (.acquire rfl rfl))
  have asleep := acquired.next (Step.turn true (.sleep rfl rfl))
  have push := asleep.next (Step.call (i := false) rfl (handler_push { terminal := true }))
  have acquired' := push.next (Step.turn false (.acquire rfl rfl))
  have entered := acquired'.next (Step.turn false (.enter rfl rfl))
  have pushed := entered.next (Step.turn false (.act rfl))
  have left := pushed.next (Step.turn false (.leave rfl))
  have woken := left.next (Step.turn false (.wakes (j := true) rfl rfl))
  have again := woken.next (Step.turn true (.acquire rfl rfl))
  have entered' := again.next (Step.turn true (.enter rfl rfl))
  have front := entered'.next (Step.turn true (.act rfl))
  have popped := front.next (Step.turn true (.act rfl))
  have left' := popped.next (Step.turn true (.leave rfl))
  have returned := left'.next (Step.turn true (.returns rfl))
  exact ⟨_, _, returned, nofun, rfl, rfl⟩

end StreamingSink

section Threads

variable {ι : Type} [DecidableEq ι] [Finite ι]

/-- Whatever threads call the queue, and however they get in each other's way, each call that has returned is one
    step of the queue, in the order of the calls' critical sections.  If only one thread calls `pop`, as the
    scheduler does, then no wake-up is lost: when the threads have gone as far as they can, which they do, every
    call has returned except for a `pop` of an empty and open queue. -/
theorem queue_calls_atomic {may : ι → RequestQueue.Op → Prop} {capacity : Nat}
    {past : List (Call ι RequestQueue.Op RequestQueue.Result)}
    {s : Monitor.State ι RequestQueue RequestQueue.Op RequestQueue.Result}
    (run : (machine RequestQueue.methods may { capacity := capacity }).Run past s) :
    Ends RequestQueue.methods s ∧
      ∃ q, (serial RequestQueue.Does may { capacity := capacity }).Run past q ∧ (s.owner = none → s.value = q) ∧
        ((∀ i j, may i .pop → may j .pop → i = j) → Stuck RequestQueue.methods s →
          s.value = q ∧ ∀ i, s.phase i = .idle ∨ s.phase i = .asleep .pop ∧ q.pop = .waits) := by
  obtain ⟨ends, q, run', free, rest⟩ :=
    run_serial RequestQueue.does_of_run RequestQueue.waits_pop RequestQueue.alerts run
  refine ⟨ends, q, run', free, fun consumer stuck => ?_⟩
  obtain ⟨same, each⟩ := rest consumer stuck
  rw [RequestQueue.ready_pop] at each
  exact ⟨same, each⟩

/-- The scheduler goes to sleep in `pop` after a full queue has refused a request. -/
theorem queue_calls_atomic_refusal :
    ∃ past s, (machine RequestQueue.methods RequestQueue.scheduler { capacity := 0 }).Run past s ∧ past ≠ [] ∧
      Stuck RequestQueue.methods s ∧ s.phase true = .asleep .pop ∧ s.value.pop = .waits := by
  obtain ⟨past, s, run, called, idle, asleep⟩ := RequestQueue.refusal
  have stuck : Stuck RequestQueue.methods s := .of_rest (Bool.forall_bool.2 ⟨.inl idle, .inr ⟨_, asleep⟩⟩)
  obtain ⟨_, q, _, _, rest⟩ := queue_calls_atomic run
  obtain ⟨same, each⟩ := rest RequestQueue.scheduler_single stuck
  refine ⟨past, s, run, called, stuck, asleep, ?_⟩
  rcases each true with idle | ⟨_, waits⟩
  · rw [asleep] at idle
    cases idle
  · rw [same, waits]

/-- The same of the sink, in which the scheduler puts events and from which the HTTP thread takes them: no call of
    `next` returns before there is an event, and none sleeps on when there is one. -/
theorem sink_calls_atomic {may : ι → StreamingSink.Op → Prop}
    {past : List (Call ι StreamingSink.Op StreamingSink.Result)}
    {s : Monitor.State ι StreamingSink StreamingSink.Op StreamingSink.Result}
    (run : (machine StreamingSink.methods may {}).Run past s) :
    Ends StreamingSink.methods s ∧
      ∃ sink, (serial StreamingSink.Does may {}).Run past sink ∧ (s.owner = none → s.value = sink) ∧
        ((∀ i j, may i .next → may j .next → i = j) → Stuck StreamingSink.methods s →
          s.value = sink ∧ ∀ i, s.phase i = .idle ∨ s.phase i = .asleep .next ∧ sink.next = none) := by
  obtain ⟨ends, sink, run', free, rest⟩ :=
    run_serial StreamingSink.does_of_run StreamingSink.waits_next StreamingSink.alerts run
  refine ⟨ends, sink, run', free, fun consumer stuck => ?_⟩
  obtain ⟨same, each⟩ := rest consumer stuck
  rw [StreamingSink.ready_next] at each
  exact ⟨same, each⟩

/-- An event is handed over to a thread that has slept. -/
theorem sink_calls_atomic_handover :
    ∃ past s sink, (machine StreamingSink.methods StreamingSink.handler {}).Run past s ∧ past ≠ [] ∧
      Stuck StreamingSink.methods s ∧ (serial StreamingSink.Does StreamingSink.handler {}).Run past sink ∧
      s.value = sink := by
  obtain ⟨past, s, run, called, idle, idle'⟩ := StreamingSink.handover
  have stuck : Stuck StreamingSink.methods s := .of_rest (Bool.forall_bool.2 ⟨.inl idle, .inl idle'⟩)
  obtain ⟨_, sink, run', _, rest⟩ := sink_calls_atomic run
  exact ⟨past, s, sink, run, called, stuck, run', (rest StreamingSink.handler_single stuck).1⟩

end Threads

end MicroVllm
