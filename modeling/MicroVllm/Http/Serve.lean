import MicroVllm.Scheduler.Cancellation
import MicroVllm.Sinks

/-! # The HTTP server around the scheduler

`serve`: the handlers of the two endpoints, each on a thread of its own, the watcher that turns a
signal into a shutdown, and the scheduler thread, which go on in any order.  A handler takes one step
for each thing it does that another thread can see.  The HTTP library decides when a connection comes
in, when one turns out to be gone, and when it no longer asks a stream for more.
-/

namespace MicroVllm

open Transition (Machine)

inductive Endpoint where
  | generate
  | stream
deriving DecidableEq, Repr

/-- What a handler finds when it looks at its connection or writes to it: it is there, or it is gone,
    after so many more bytes have been sent. -/
inductive Wire where
  | fine
  | broken (sent : Nat)
deriving DecidableEq, Repr

/-- What of a chunk goes out. -/
def Wire.passes : Wire → Text → Text
  | .fine, text => text
  | .broken sent, text => text.take sent

/-- How a handler ends: with a response, with a stream that is complete or not, or with an exception
    of the JSON library. -/
inductive Reply where
  | response (status : Nat) (body : Text)
  | streamed (complete : Bool)
  | threw (e : JsonException)
deriving DecidableEq, Repr

def Reply.make (status : Nat) : Except JsonException Text → Reply
  | .ok body => .response status body
  | .error e => .threw e

/-- Where a handler is: reading the body, taking a number, at the queue, waiting for the result, or
    asked for the next part of the stream. -/
inductive HandlerPc where
  | parsing
  | numbering (spec : RequestSpec)
  | pushing (request : Request)
  | waiting (id : Nat)
  | streaming (id : Nat)
  | done (reply : Reply)
deriving DecidableEq, Repr

/-- `written` is what has gone out to the client.  Ghosts: the number of the request, whether the queue
    has taken it, what was taken from its sink, and whether the connection was found to be gone. -/
structure Handler where
  endpoint : Endpoint
  body : Text
  pc : HandlerPc := .parsing
  written : Text := []
  id : Option Nat := none
  accepted : Bool := false
  taken : List StreamingSink.Event := []
  gone : Bool := false
deriving DecidableEq, Repr

/-- The scheduler thread: its next step, and the answer to `cancelled` that this step rests on, with
    the request it is about. -/
structure Worker (τ : Type) where
  step : τ → RequestQueue → Option (List Event × τ × RequestQueue)
  asks : τ → Option (Nat × Bool)

/-- `nextId` counts in 64 bits in the source; fewer than `2 ^ 64` requests come in. -/
structure Serve (τ : Type) where
  server : Server τ
  nextId : Nat := 1
  shuttingDown : Bool := false
  listening : Bool := true
  handlers : List Handler := []
  promises : Nat → Option GenResult := fun _ => none
  sinks : Nat → StreamingSink := fun _ => {}
  cancel : Nat → Bool := fun _ => false

/-- The result an event fulfils the promise of a request with. -/
def Event.resultFor (id : Nat) : Event → Option GenResult
  | .setValue owner result => if owner = id then some result else none
  | _ => none

namespace HttpApi

/-- The end of the handler of `/generate`, which has the result. -/
def respond (lib : JsonLibrary) (result : GenResult) : Reply :=
  if result.reason = .contextOverflow then .make 400 (makeErrorResponse lib result.error)
  else if result.reason = .error then .make 500 (makeErrorResponse lib result.error)
  else .make 200 (makeGenerateResponse lib result.text result.reason result.usage)

end HttpApi

open HttpApi

def HandlerPc.finished : HandlerPc → Bool
  | .done _ => true
  | _ => false

namespace Handler

/-- Only `BadRequest` is caught. -/
def parse (lib : JsonLibrary) (h : Handler) : Handler :=
  { h with pc := match parseGenerateRequest lib.parse h.body with
      | .ok spec => .numbering spec
      | .error (.badRequest message) => .done (.make 400 (makeErrorResponse lib message))
      | .error (.json e) => .done (.threw e) }

/-- The handler with the answer of `try_push`. -/
def pushed (lib : JsonLibrary) (taken : Bool) (request : Request) (h : Handler) : Handler :=
  { h with
    accepted := taken
    pc :=
      if taken then
        match h.endpoint with
        | .generate => .waiting request.id
        | .stream => .streaming request.id
      else .done (.make 503 (makeErrorResponse lib "server at capacity; retry later")) }

end Handler

namespace Serve

variable {τ : Type} (lib : JsonLibrary)

def put (i : Nat) (h : Handler) (s : Serve τ) : Serve τ := { s with handlers := s.handlers.set i h }

def raise (id : Nat) (s : Serve τ) : Serve τ := { s with cancel := Function.update s.cancel id true }

/-- `fetch_add`, and the request with that number. -/
def number (i : Nat) (h : Handler) (spec : RequestSpec) (s : Serve τ) : Serve τ :=
  { s with nextId := s.nextId + 1 }.put i { h with
    id := some s.nextId
    pc := .pushing { id := s.nextId, spec := spec, sink := h.endpoint = Endpoint.stream } }

def submit (i : Nat) (h : Handler) (request : Request) (s : Serve τ) : Serve τ :=
  { s with server := s.server.push request }.put i
    (h.pushed lib (s.server.queue.tryPush request).1 request)

/-- One turn of the loop around `wait_for`. -/
def poll (i : Nat) (h : Handler) (id : Nat) (wire : Wire) (s : Serve τ) : Serve τ :=
  match s.promises id with
  | some result => s.put i { h with pc := .done (respond lib result) }
  | none =>
    if wire ≠ .fine ∨ s.shuttingDown then
      (s.put i { h with gone := h.gone || wire ≠ .fine }).raise id
    else s

/-- The handler after the provider has written what it made of an event. -/
def wrote (i : Nat) (h : Handler) (id : Nat) (ev : StreamingSink.Event) (wire : Wire) (s : Serve τ) :
    Serve τ :=
  -- whether the end of the stream could be written is not looked at
  if ev.terminal then s.put i { h with pc := .done (.streamed (wire = .fine)) }
  else if wire = .fine then if s.shuttingDown then (s.put i h).raise id else s.put i h
  else (s.put i { h with pc := .done (.streamed false) }).raise id

/-- One call of the content provider; `none` while `next` sleeps. -/
def provide (i : Nat) (h : Handler) (id : Nat) (wire : Wire) (s : Serve τ) : Option (Serve τ) :=
  match (s.sinks id).next with
  | none => none
  | some (ev, sink) =>
    let s := { s with sinks := Function.update s.sinks id sink }
    let h := { h with taken := h.taken ++ [ev] }
    match chunk lib ev with
    | .error e => some (s.put i { h with pc := .done (.threw e) })
    | .ok text => some (s.wrote i { h with
        written := h.written ++ wire.passes text
        gone := h.gone || wire ≠ .fine } id ev wire)

/-- One step of a handler. -/
def handle (i : Nat) (h : Handler) (wire : Wire) (s : Serve τ) : Option (Serve τ) :=
  match h.pc with
  | .parsing => some (s.put i (h.parse lib))
  | .numbering spec => some (s.number i h spec)
  | .pushing request => some (s.submit lib i h request)
  | .waiting id => some (s.poll lib i h id wire)
  | .streaming id => s.provide lib i h id wire
  | .done _ => none

/-- The calls of the scheduler thread reach the promises and the sinks. -/
def absorb (events : List Event) (thread : τ) (queue : RequestQueue) (s : Serve τ) : Serve τ :=
  { s with
    server := { s.server with thread := thread, queue := queue }
    promises := fun id => (s.promises id).or (events.findSome? (Event.resultFor id))
    sinks := fun id => (callsTo (.supplied id) events).foldl StreamingSink.hear (s.sinks id) }

/-- The scheduler reads the flag that the handlers raise.  The world it runs in stands for any source
    of answers, and this says that the next one is the flag's. -/
def honest (work : Worker τ) (s : Serve τ) : Bool :=
  match work.asks s.server.thread with
  | some (id, answer) => answer = s.cancel id
  | none => true

/-- What can happen next.

* `connect`: a request comes in; `handle`: a handler takes a step, with what it finds of its connection;
* `cut`: the HTTP library gives a stream up, because nothing can be written or the server is stopping;
* `signal`: the watcher sets `shutting_down`; `stop`: no connection is taken any more;
* `close`: `listen` has returned and the queue is closed; when it returns is up to the HTTP library;
* `run`: a step of the scheduler thread. -/
inductive Act where
  | connect (endpoint : Endpoint) (body : Text)
  | handle (i : Nat) (wire : Wire)
  | cut (i : Nat)
  | signal
  | stop
  | close
  | run
deriving DecidableEq, Repr

def act (work : Worker τ) (s : Serve τ) : Act → Option (List Event × Serve τ)
  | .connect endpoint body =>
    if s.listening then
      some ([], { s with handlers := s.handlers ++ [{ endpoint := endpoint, body := body }] })
    else none
  | .handle i wire =>
    match s.handlers[i]? with
    | some h => (s.handle lib i h wire).map fun s => ([], s)
    | none => none
  | .cut i =>
    match s.handlers[i]? with
    | some h =>
      match h.pc with
      | .streaming _ => some ([], s.put i { h with pc := .done (.streamed false) })
      | _ => none
    | none => none
  | .signal => some ([], { s with shuttingDown := true })
  | .stop => some ([], { s with listening := false })
  | .close => some ([], { s with server := s.server.close })
  | .run =>
    match work.step s.server.thread s.server.queue with
    | some (events, thread, queue) =>
      if s.honest work then some (events, s.absorb events thread queue) else none
    | none => none

/-- The server as `serve` starts it. -/
def machine (work : Worker τ) (thread : τ) (capacity : Nat) : Machine (Serve τ) Event where
  init s := s = { server := { thread := thread, queue := { capacity := capacity } } }
  step s events s' := ∃ act, s.act lib work act = some (events, s')

/-- No connection is taken, and every handler has returned. -/
def Quiescent (s : Serve τ) : Prop := s.listening = false ∧ ∀ h ∈ s.handlers, h.pc.finished = true

instance (s : Serve τ) : Decidable s.Quiescent :=
  inferInstanceAs (Decidable (s.listening = false ∧ ∀ h ∈ s.handlers, h.pc.finished = true))

/-- What `serve` relies on the HTTP library for: `listen` returns, and the queue is closed, only when no
    connection is taken any more and every handler has returned. -/
def ListenJoins (s : Serve τ) (_ : List Event) (t : Serve τ) : Prop :=
  t.server.queue.closed = true → s.server.queue.closed = true ∨ s.Quiescent

/-! ## Executable runs -/

def play (work : Worker τ) : List Act → List Event → Serve τ → Option (List Event × Serve τ)
  | [], past, s => some (past, s)
  | act :: acts, past, s =>
    match s.act lib work act with
    | some (events, s') => play work acts (past ++ events) s'
    | none => none

variable {lib} {work : Worker τ} {thread : τ} {capacity : Nat}

theorem run_of_play {acts : List Act} {past past' : List Event} {s t : Serve τ}
    (run : (machine lib work thread capacity).Run past s) (played : play lib work acts past s = some (past', t)) :
    (machine lib work thread capacity).Run past' t := by
  induction acts generalizing past s with
  | nil =>
    cases played
    exact run
  | cons act acts ih =>
    simp only [play] at played
    split at played
    · rename_i events s' acted
      exact ih (run.next ⟨act, acted⟩) played
    · cases played

/-- A schedule that can be played shows that a run reaches what it ends in. -/
theorem exists_run {reached : List Event → Serve τ → Prop} [∀ past t, Decidable (reached past t)]
    (acts : List Act)
    (played : (play lib work acts [] { server := { thread := thread, queue := { capacity := capacity } } }).any
      (fun r => reached r.1 r.2) = true) :
    ∃ past t, (machine lib work thread capacity).Run past t ∧ reached past t := by
  obtain ⟨⟨past, t⟩, ends, holds⟩ := (Option.any_eq_true _ _).mp played
  exact ⟨past, t, run_of_play (.start rfl) ends, of_decide_eq_true holds⟩

end Serve

/-! ## The scheduler thread -/

variable {σ : Type}

/-- The scheduler thread in either mode. -/
inductive Thread (σ : Type) where
  | static (thread : Static σ)
  | continuous (thread : Continuous σ)

namespace Thread

/-- `Scheduler::run` as it is entered. -/
def start (w : World σ) (config : SchedulerConfig) (world : σ) : Thread σ :=
  match config.mode with
  | .static => .static (.start w config world)
  | .continuous => .continuous (.start w config world)

def step (w : World σ) (config : SchedulerConfig) :
    Thread σ → RequestQueue → Option (List Event × Thread σ × RequestQueue)
  | .static thread, queue =>
    (thread.step w config queue).map fun (events, thread, queue) => (events, .static thread, queue)
  | .continuous thread, queue =>
    (thread.step w config queue).map fun (events, thread, queue) => (events, .continuous thread, queue)

def asks (w : World σ) : Thread σ → Option (Nat × Bool)
  | .static thread => thread.asks w
  | .continuous thread => thread.asks w

def worker (w : World σ) (config : SchedulerConfig) : Worker (Thread σ) where
  step := step w (config.construct w.caps)
  asks := asks w

end Thread

/-- The program: `serve` around a scheduler that runs in the mode it is configured for. -/
def Serve.program (lib : JsonLibrary) (w : World σ) (config : SchedulerConfig) (capacity : Nat) (world : σ) :
    Machine (Serve (Thread σ)) Event :=
  machine lib (Thread.worker w config) (.start w config world) capacity

end MicroVllm
