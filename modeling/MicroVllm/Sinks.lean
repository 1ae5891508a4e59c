import MicroVllm.Responses
import MicroVllm.Works

/-! # The sink behind a stream

The scheduler thread calls `StreamingSink` as any other sink, and the thread of the HTTP handler takes
out what the calls have put in.  Both methods run under the sink's mutex, so a call is one step of
whoever makes it.  What is taken out is written to the client as server-sent events.
-/

namespace MicroVllm

namespace StreamingSink

structure Event where
  text : Text := []
  terminal : Bool := false
  reason : FinishReason := .unset
  usage : Usage := {}
  error : String := ""
deriving DecidableEq, Repr

end StreamingSink

structure StreamingSink where
  events : List StreamingSink.Event := []
deriving DecidableEq, Repr

namespace StreamingSink

def push (e : Event) (sink : StreamingSink) : StreamingSink := { events := sink.events ++ [e] }

def onText (delta : Text) (sink : StreamingSink) : StreamingSink :=
  if delta = [] then sink else sink.push { text := delta }

def onFinish (reason : FinishReason) (usage : Usage) (sink : StreamingSink) : StreamingSink :=
  sink.push { terminal := true, reason := reason, usage := usage }

/-- Whatever went wrong, the event says `error`. -/
def onError (message : String) (sink : StreamingSink) : StreamingSink :=
  sink.push { terminal := true, reason := .error, error := message }

/-- `none` while there is nothing to take and the caller sleeps. -/
def next (sink : StreamingSink) : Option (Event × StreamingSink) :=
  match sink.events with
  | e :: events => some (e, { events := events })
  | [] => none

/-- What a call of the scheduler does to the sink. -/
def hear (sink : StreamingSink) : MicroVllm.Event → StreamingSink
  | .onText _ delta => sink.onText delta
  | .onFinish _ reason usage => sink.onFinish reason usage
  | .onError _ message => sink.onError message
  | _ => sink

/-! ## What is in the sink -/

/-- What a call puts in. -/
def Event.ofCall : MicroVllm.Event → Option Event
  | .onText _ delta => if delta = [] then none else some { text := delta }
  | .onFinish _ reason usage => some { terminal := true, reason := reason, usage := usage }
  | .onError _ message => some { terminal := true, reason := .error, error := message }
  | _ => none

/-- What has been put into the sink of a request. -/
def said (id : Nat) (past : List MicroVllm.Event) : List Event :=
  (callsTo (.supplied id) past).filterMap Event.ofCall

theorem said_append (id : Nat) (past events : List MicroVllm.Event) :
    said id (past ++ events) = said id past ++ said id events := by
  simp [said]

theorem hear_events (sink : StreamingSink) (e : MicroVllm.Event) :
    (sink.hear e).events = sink.events ++ (Event.ofCall e).toList := by
  cases e with
  | onText target delta =>
    simp only [hear, onText, Event.ofCall]
    split <;> simp [push]
  | onFinish | onError => rfl
  | _ => simp [hear, Event.ofCall]

theorem hears_events (sink : StreamingSink) (calls : List MicroVllm.Event) :
    (calls.foldl hear sink).events = sink.events ++ calls.filterMap Event.ofCall := by
  induction calls generalizing sink with
  | nil => simp
  | cons e calls ih =>
    rw [List.foldl_cons, ih, hear_events, List.append_assoc, List.filterMap_cons]
    cases Event.ofCall e <;> simp

end StreamingSink

/-! ## What is written -/

namespace HttpApi

/-- The value an event is written as. -/
def eventJson (ev : StreamingSink.Event) : Json :=
  if ev.terminal then
    if ev.reason = .error then errorJson ev.error else doneJson ev.reason ev.usage
  else deltaJson ev.text

def eventBody (lib : JsonLibrary) (ev : StreamingSink.Event) : Except JsonException Text :=
  if ev.terminal then
    if ev.reason = .error then makeErrorResponse lib ev.error else makeStreamDone lib ev.reason ev.usage
  else makeStreamDelta lib ev.text

/-- What the content provider writes for an event. -/
def chunk (lib : JsonLibrary) (ev : StreamingSink.Event) : Except JsonException Text :=
  (eventBody lib ev).map fun body =>
    if ev.terminal then bytes "data: " ++ body ++ bytes "\n\ndata: [DONE]\n\n"
    else bytes "data: " ++ body ++ bytes "\n\n"

/-- Server-sent events. -/
def sse : EventStream.Format UInt8 where
  newline := 10
  space := 32
  field := bytes "data:"
  newline_not_mem := by decide
  space_ne_newline := by decide

/-- What follows the last event. -/
def closing (ev : StreamingSink.Event) : List Text := if ev.terminal then [bytes "[DONE]"] else []

theorem plain_event (ev : StreamingSink.Event) : (eventJson ev).Plain := by
  unfold eventJson
  split
  · split
    · exact plain_error _
    · exact plain_done _ _
  · exact plain_delta _

theorem eventBody_eq_dump (lib : JsonLibrary) (ev : StreamingSink.Event) :
    eventBody lib ev = lib.dump (eventJson ev) := by
  unfold eventBody eventJson
  split
  · split <;> rfl
  · rfl

/-- A chunk is a frame around the value, and one more at the end of a stream. -/
theorem chunk_eq_ok {lib : JsonLibrary} {ev : StreamingSink.Event} {text : Text}
    (made : chunk lib ev = .ok text) :
    ∃ body, lib.dump (eventJson ev) = .ok body ∧ text = (body :: closing ev).flatMap sse.frame := by
  unfold chunk at made
  rw [eventBody_eq_dump] at made
  cases dumped : lib.dump (eventJson ev) with
  | error e =>
    rw [dumped] at made
    cases made
  | ok body =>
    rw [dumped] at made
    cases made
    refine ⟨body, rfl, ?_⟩
    have start : bytes "data: " = bytes "data:" ++ [32] := by decide
    have stop : bytes "\n\n" = [10, 10] := by decide
    have last : bytes "\n\ndata: [DONE]\n\n" = [10, 10] ++ sse.frame (bytes "[DONE]") := by decide
    unfold closing
    split
    · simp [start, last, EventStream.Format.frame, sse]
    · simp [start, stop, EventStream.Format.frame, sse]

end HttpApi

end MicroVllm
