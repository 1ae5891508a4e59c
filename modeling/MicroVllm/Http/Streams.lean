import MicroVllm.Emission
import MicroVllm.Http.Answers

/-! # What comes out of a stream

A client of `/generate/stream` reads the bytes it has got as server-sent events, whether the stream has
come to its end or broke off inside an event.  What it reads are the first of the events that the
scheduler has put into the sink of its request, each as the value it was written as, and a complete stream
shows all of them and the end mark.
-/

namespace MicroVllm

open HttpApi

/-- The texts in a sink are what has been sent to it. -/
theorem said_texts (id : Nat) (past : List Event) :
    (StreamingSink.said id past).flatMap StreamingSink.Event.text = streamed (.supplied id) past := by
  induction past with
  | nil => rfl
  | cons e past ih =>
    have split : StreamingSink.said id (e :: past) = StreamingSink.said id [e] ++ StreamingSink.said id past :=
      StreamingSink.said_append id [e] past
    have also : streamed (.supplied id) (e :: past) = streamed (.supplied id) [e] ++ streamed (.supplied id) past :=
      streamed_append _ [e] past
    rw [split, also, List.flatMap_append, ih]
    congr 1
    cases e with
    | onText sink delta =>
      by_cases own : sink = .supplied id
      · subst own
        by_cases empty : delta = [] <;>
          simp [StreamingSink.said, callsTo, Event.callTo, StreamingSink.Event.ofCall, streamed, Event.deltaTo, empty]
      · simp [StreamingSink.said, callsTo, Event.callTo, streamed, Event.deltaTo, own]
    | onFinish sink | onError sink =>
      by_cases own : sink = .supplied id <;>
        simp [StreamingSink.said, callsTo, Event.callTo, StreamingSink.Event.ofCall, streamed, Event.deltaTo, own]
    | _ => rfl

/-- Where a handler is in the stream: before the end, or with the end in hand. -/
theorem Said.front {id : Nat} {past : List Event} {events : List StreamingSink.Event} (said : Said id past)
    (first : events <+: StreamingSink.said id past) :
    (∀ ev ∈ events, ev.terminal = false) ∨ ∃ deltas last, events = deltas ++ [last] ∧
      events = StreamingSink.said id past ∧ last.terminal = true ∧ ∀ ev ∈ deltas, ev.terminal = false := by
  cases said with
  | going deltas => exact .inl fun ev member => (deltas ev (first.subset member)).1
  | @ended deltas last all texts terminal =>
    rw [all] at first
    rcases List.prefix_concat_iff.mp first with whole | part
    · exact .inr ⟨deltas, last, whole, whole.trans all.symm, terminal, fun ev member => (texts ev member).1⟩
    · exact .inl fun ev member => (texts ev (part.subset member)).1

/-! ## Frames -/

/-- The bodies that events are written as. -/
def Bodies (lib : JsonLibrary) (events : List StreamingSink.Event) (bodies : List Text) : Prop :=
  List.Forall₂ (fun ev body => lib.dump (eventJson ev) = .ok body) events bodies

theorem Chunks.deltas {lib : JsonLibrary} {events : List StreamingSink.Event} {text : Text}
    (chunks : Chunks lib events text) (all : ∀ ev ∈ events, ev.terminal = false) :
    ∃ bodies, Bodies lib events bodies ∧ text = bodies.flatMap sse.frame := by
  obtain ⟨parts, made, rfl⟩ := chunks
  induction made with
  | nil => exact ⟨[], .nil, rfl⟩
  | @cons ev part events parts made _ ih =>
    obtain ⟨bodies, dumped, rest⟩ := ih fun ev member => all ev (List.mem_cons_of_mem _ member)
    obtain ⟨body, whole, rfl⟩ := chunk_eq_ok made
    refine ⟨body :: bodies, .cons whole dumped, ?_⟩
    simp [closing, all ev List.mem_cons_self, rest]

/-- The end of a stream is written together with the end mark. -/
theorem Chunks.ended {lib : JsonLibrary} {deltas : List StreamingSink.Event} {last : StreamingSink.Event} {text : Text}
    (chunks : Chunks lib (deltas ++ [last]) text) (terminal : last.terminal = true)
    (all : ∀ ev ∈ deltas, ev.terminal = false) :
    ∃ bodies, Bodies lib (deltas ++ [last]) bodies ∧ text = (bodies ++ [bytes "[DONE]"]).flatMap sse.frame := by
  obtain ⟨parts, made, rfl⟩ := chunks
  induction deltas generalizing parts with
  | nil =>
    cases made with
    | cons made rest =>
      cases rest
      obtain ⟨body, whole, rfl⟩ := chunk_eq_ok made
      exact ⟨[body], .cons whole .nil, by simp [closing, terminal]⟩
  | cons ev deltas ih =>
    cases made with
    | cons made rest =>
      obtain ⟨bodies, dumped, text⟩ := ih (fun ev member => all ev (List.mem_cons_of_mem _ member)) _ rest
      obtain ⟨body, whole, rfl⟩ := chunk_eq_ok made
      refine ⟨body :: bodies, .cons whole dumped, ?_⟩
      simp [closing, all ev List.mem_cons_self, text]

variable {lib : JsonLibrary} {events : List StreamingSink.Event} {bodies : List Text} {written : Text}

theorem Bodies.oneLine (lawful : lib.Lawful) (dumped : Bodies lib events bodies) : ∀ body ∈ bodies, 10 ∉ body := by
  intro body member
  obtain ⟨ev, _, made⟩ := Lists.exists_of_forall₂_right dumped member
  exact lawful.oneLine _ _ made

theorem Bodies.parses (lawful : lib.Lawful) (dumped : Bodies lib events bodies) :
    List.Forall₂ (fun ev body => lib.parse body = .ok (eventJson ev)) events bodies :=
  dumped.imp fun ev _ made => lawful.reads _ _ (plain_event ev) made

/-- A client reads these events out of what was written, and the end mark if the stream is complete. -/
def Shows (lib : JsonLibrary) (written : Text) (events : List StreamingSink.Event) (complete : Bool) : Prop :=
  ∃ bodies, List.Forall₂ (fun ev body => lib.parse body = .ok (eventJson ev)) events bodies ∧
    sse.decode written = bodies ++ if complete then [bytes "[DONE]"] else []

/-- If whole events were read, they are the first ones. -/
theorem Bodies.shows (lawful : lib.Lawful) (dumped : Bodies lib events bodies)
    (read : sse.decode written <+: bodies) : ∃ shown, shown <+: events ∧ Shows lib written shown false := by
  have taken : sse.decode written = bodies.take (sse.decode written).length := List.prefix_iff_eq_take.mp read
  refine ⟨events.take (sse.decode written).length, List.take_prefix _ _,
    bodies.take (sse.decode written).length, ?_, ?_⟩
  · exact List.forall₂_take _ (dumped.parses lawful)
  · exact taken.trans (List.append_nil _).symm

/-- A part of a stream that has not come to its end. -/
theorem Bodies.shows_part (lawful : lib.Lawful) (dumped : Bodies lib events bodies)
    (part : written <+: bodies.flatMap sse.frame) : ∃ shown, shown <+: events ∧ Shows lib written shown false :=
  dumped.shows lawful (EventStream.Format.decode_of_cut (dumped.oneLine lawful) part)

theorem Bodies.mark_oneLine (lawful : lib.Lawful) (dumped : Bodies lib events bodies) :
    ∀ payload ∈ bodies ++ [bytes "[DONE]"], 10 ∉ payload := by
  intro payload member
  rcases List.mem_append.mp member with body | mark
  · exact dumped.oneLine lawful payload body
  · rw [List.mem_singleton.mp mark]
    decide

/-- A part of a stream that has come to its end. -/
theorem Bodies.shows_end (lawful : lib.Lawful) (dumped : Bodies lib events bodies)
    (part : written <+: (bodies ++ [bytes "[DONE]"]).flatMap sse.frame) :
    (∃ shown, shown <+: events ∧ Shows lib written shown false) ∨ Shows lib written events true := by
  have read := EventStream.Format.decode_of_cut (dumped.mark_oneLine lawful) part
  rcases List.prefix_concat_iff.mp read with whole | some
  · exact .inr ⟨bodies, dumped.parses lawful, whole⟩
  · exact .inl (dumped.shows lawful some)

/-- The whole of it. -/
theorem Bodies.shows_all (lawful : lib.Lawful) (dumped : Bodies lib events bodies)
    (whole : written = (bodies ++ [bytes "[DONE]"]).flatMap sse.frame) : Shows lib written events true := by
  refine ⟨bodies, dumped.parses lawful, ?_⟩
  rw [whole]
  exact EventStream.Format.decode_frames (dumped.mark_oneLine lawful)

/-! ## Streams -/

/-- Every stream can be read at any time, if the engine throws in `decode` at most and the JSON library
    reads back what it writes.  The sink of a request has been given pieces of text and in the end one
    event that says what the promise says; whatever part of the stream has gone out, the client reads from
    it, as they were, the first of those events, and the end mark only after all of them, as it does when
    the handler reports the stream complete. -/
theorem stream_decodes {σ : Type} (lib : JsonLibrary) (lawful : lib.Lawful) (w : World σ)
    (engine : w.OnlyDecodeThrows) (config : SchedulerConfig) (capacity : Nat) (world : σ) (past : List Event)
    (s : Serve (Thread σ)) (run : (Serve.program lib w config capacity world).Run past s) (h : Handler)
    (inside : h ∈ s.handlers) (endpoint : h.endpoint = .stream) (took : h.accepted = true) :
    ∃ id, h.id = some id ∧ Said id past ∧
      (StreamingSink.said id past).flatMap StreamingSink.Event.text = streamed (.supplied id) past ∧
      ∃ shown complete, Shows lib h.written shown complete ∧ shown <+: StreamingSink.said id past ∧
        (complete = true → shown = StreamingSink.said id past ∧
          ∃ last ∈ shown.getLast?, last.terminal = true) ∧
        (h.pc = .done (.streamed true) → complete = true) := by
  obtain ⟨stands, _⟩ := Serve.stands_run run
  have mirrored := Serve.mirrored_run run
  have scheduler := Serve.scheduler_run run
  have at_ := stands h inside
  cases at_ with
  | @streaming body taken written gone request read known own sent more =>
    have said := (Thread.spoken engine scheduler known).said own
    have first : taken <+: StreamingSink.said request.id past := ⟨_, mirrored.taken _ inside request.id rfl⟩
    obtain ⟨bodies, dumped, rfl⟩ := sent.deltas more
    obtain ⟨shown, part, shows⟩ := dumped.shows_part lawful List.prefix_rfl
    exact ⟨request.id, rfl, said, said_texts _ _, shown, false, shows, part.trans first, nofun, nofun⟩
  | @choked body taken written gone request e ev read known own sent threw =>
    have said := (Thread.spoken engine scheduler known).said own
    have first : taken ++ [ev] <+: StreamingSink.said request.id past :=
      ⟨_, mirrored.taken _ inside request.id rfl⟩
    -- nothing comes after the end
    have more : ∀ ev ∈ taken, ev.terminal = false := by
      rcases said.front first with deltas | ⟨deltas, last, same, _, _, texts⟩
      · exact fun ev member => deltas ev (List.mem_append_left _ member)
      · rw [(List.append_inj' same rfl).1]
        exact texts
    obtain ⟨bodies, dumped, rfl⟩ := sent.deltas more
    obtain ⟨shown, part, shows⟩ := dumped.shows_part lawful List.prefix_rfl
    have started : taken <+: StreamingSink.said request.id past := (List.prefix_append _ _).trans first
    exact ⟨request.id, rfl, said, said_texts _ _, shown, false, shows, part.trans started, nofun, nofun⟩
  | @streamed body taken written gone complete request text read known own sent part whole =>
    have said := (Thread.spoken engine scheduler known).said own
    have first : taken <+: StreamingSink.said request.id past := ⟨_, mirrored.taken _ inside request.id rfl⟩
    refine ⟨request.id, rfl, said, said_texts _ _, ?_⟩
    rcases said.front first with deltas | ⟨deltas, last, rfl, all, terminal, texts⟩
    · obtain ⟨bodies, dumped, rfl⟩ := sent.deltas deltas
      obtain ⟨shown, some, shows⟩ := dumped.shows_part lawful part
      refine ⟨shown, false, shows, some.trans first, nofun, fun done => ?_⟩
      cases done
      obtain ⟨_, front, last, rfl, terminal, _⟩ := whole rfl
      rw [deltas last (by simp)] at terminal
      cases terminal
    · have end_ : ∃ ev ∈ (deltas ++ [last]).getLast?, ev.terminal = true := ⟨last, by simp, terminal⟩
      obtain ⟨bodies, dumped, rfl⟩ := sent.ended terminal texts
      by_cases done : complete = true
      · have shows := dumped.shows_all lawful (whole done).1
        exact ⟨_, true, shows, first, fun _ => ⟨all, end_⟩, fun _ => rfl⟩
      · rcases dumped.shows_end lawful part with ⟨shown, some, shows⟩ | shows
        · refine ⟨shown, false, shows, some.trans first, nofun, fun finished => ?_⟩
          cases finished
          exact absurd rfl done
        · exact ⟨_, true, shows, first, fun _ => ⟨all, end_⟩, fun _ => rfl⟩
  | waiting | answered => cases endpoint
  | parsing | numbering | pushing | refused | unread | shed => cases took

/-- A stream that comes to its end. -/
theorem stream_decodes_letter :
    ∃ past s h,
      (Serve.program .sample Script.letter.world (.pair 8) 4 fun _ => none).Run past s ∧ h ∈ s.handlers ∧
      h.pc = .done (.streamed true) ∧ Shows .sample h.written (StreamingSink.said 1 past) true := by
  obtain ⟨past, s, run, h, inside, endpoint, took, own, pc⟩ : ∃ past s,
      (Serve.program .sample Script.letter.world (.pair 8) 4 fun _ => none).Run past s ∧
      ∃ h ∈ s.handlers, h.endpoint = .stream ∧ h.accepted = true ∧ h.id = some 1 ∧ h.pc = .done (.streamed true) :=
    Serve.exists_run ([.connect .stream (JsonLibrary.requestText "a")] ++ List.replicate 3 (.handle 0 .fine) ++
      List.replicate 49 .run ++ List.replicate 5 (.handle 0 .fine)) (by decide +kernel)
  obtain ⟨id, same, _, _, shown, complete, shows, _, whole, finished⟩ := stream_decodes .sample
    JsonLibrary.sample_lawful Script.letter.world Script.letter.world_onlyDecodeThrows (.pair 8) 4 _ past s run h
    inside endpoint took
  rw [own] at same
  cases same
  rw [finished pc] at shows whole
  rw [(whole rfl).1] at shows
  exact ⟨past, s, h, run, inside, pc, shows⟩

end MicroVllm
