import MicroVllm.Http.Serve
import MicroVllm.Lib.Simulation
import MicroVllm.Scheduler.Delivery

/-! # What the handlers do

`Move` lists what a step of the whole server can be.  From it follow, step by step: which state each
handler is in and what it has written, that every request has a number and a handler of its own, that
a handler has taken from its sink what the scheduler has put there, and who raises a cancel flag.  The
scheduler sees of all this only requests that come in one by one, each with a fresh number.
-/

namespace MicroVllm

open HttpApi

/-- A closed queue takes nothing. -/
theorem Server.push_of_closed {τ : Type} (request : Request) {s : Server τ} (closed : s.queue.closed = true) :
    s.push request = s := by
  simp [push, RequestQueue.tryPush, closed]

/-- What has been accepted after a push. -/
theorem Server.mem_push {τ : Type} {s : Server τ} {request r : Request}
    (member : r ∈ (s.push request).accepted) :
    r ∈ s.accepted ∨ (s.queue.tryPush request).1 = true ∧ r = request := by
  simp only [push] at member
  split at member
  · rename_i taken
    rcases List.mem_append.mp member with old | new
    · exact .inl old
    · exact .inr ⟨taken, List.mem_singleton.mp new⟩
  · exact .inl member

/-- `text` is what the provider makes of these events. -/
def Chunks (lib : JsonLibrary) (events : List StreamingSink.Event) (text : Text) : Prop :=
  ∃ parts, List.Forall₂ (fun ev part => chunk lib ev = .ok part) events parts ∧ text = parts.flatten

theorem Chunks.nil (lib : JsonLibrary) : Chunks lib [] [] := ⟨[], .nil, rfl⟩

theorem Chunks.snoc {lib : JsonLibrary} {events : List StreamingSink.Event} {text part : Text}
    {ev : StreamingSink.Event} (chunks : Chunks lib events text) (made : chunk lib ev = .ok part) :
    Chunks lib (events ++ [ev]) (text ++ part) := by
  obtain ⟨parts, all, rfl⟩ := chunks
  exact ⟨parts ++ [part], List.rel_append all (.cons made .nil), by simp⟩

/-- The same when the connection may break on the way. -/
theorem Chunks.passes {lib : JsonLibrary} {events : List StreamingSink.Event} {ev : StreamingSink.Event}
    {written text : Text}
    (sent : Chunks lib events written) (made : chunk lib ev = .ok text) (wire : Wire) :
    ∃ whole, Chunks lib (events ++ [ev]) whole ∧ written ++ wire.passes text <+: whole ∧
      (wire = .fine → written ++ wire.passes text = whole) := by
  refine ⟨_, sent.snoc made, ?_, ?_⟩
  · cases wire with
    | fine => exact List.prefix_rfl
    | broken sent => exact List.prefix_append_right_inj _ |>.mpr (List.take_prefix _ _)
  · rintro rfl
    rfl

/-- How a handler stands, with the requests that have been accepted and the promises fulfilled. -/
inductive Handler.Stands (lib : JsonLibrary) (accepted : List Request) (promises : Nat → Option GenResult) :
    Handler → Prop where
  | parsing (endpoint : Endpoint) (body : Text) : Stands lib accepted promises { endpoint, body }
  | numbering {endpoint body spec} (read : parseGenerateRequest lib.parse body = .ok spec) :
      Stands lib accepted promises { endpoint, body, pc := .numbering spec }
  | pushing {endpoint body} (request : Request) (read : parseGenerateRequest lib.parse body = .ok request.spec)
      (kind : request.sink = (endpoint = .stream : Bool)) :
      Stands lib accepted promises { endpoint, body, pc := .pushing request, id := some request.id }
  | waiting {body gone} (request : Request) (read : parseGenerateRequest lib.parse body = .ok request.spec)
      (known : request ∈ accepted) (buffered : request.sink = false) :
      Stands lib accepted promises
        { endpoint := .generate
          body
          pc := .waiting request.id
          id := some request.id
          accepted := true
          gone }
  | streaming {body taken written gone} (request : Request)
      (read : parseGenerateRequest lib.parse body = .ok request.spec) (known : request ∈ accepted)
      (own : request.sink = true) (sent : Chunks lib taken written)
      (more : ∀ ev ∈ taken, ev.terminal = false) :
      Stands lib accepted promises
        { endpoint := .stream
          body
          pc := .streaming request.id
          id := some request.id
          accepted := true
          taken
          written
          gone }
  | refused {endpoint body} (message : String)
      (bad : parseGenerateRequest lib.parse body = .error (.badRequest message)) :
      Stands lib accepted promises { endpoint, body, pc := .done (.make 400 (makeErrorResponse lib message)) }
  | unread {endpoint body} (e : JsonException)
      (threw : parseGenerateRequest lib.parse body = .error (.json e)) :
      Stands lib accepted promises { endpoint, body, pc := .done (.threw e) }
  | shed {endpoint body} (request : Request) (read : parseGenerateRequest lib.parse body = .ok request.spec) :
      Stands lib accepted promises
        { endpoint
          body
          id := some request.id
          pc := .done (.make 503 (makeErrorResponse lib "server at capacity; retry later")) }
  | answered {body gone} (request : Request) (result : GenResult)
      (read : parseGenerateRequest lib.parse body = .ok request.spec) (known : request ∈ accepted)
      (buffered : request.sink = false) (fulfilled : promises request.id = some result) :
      Stands lib accepted promises
        { endpoint := .generate
          body
          pc := .done (respond lib result)
          id := some request.id
          accepted := true
          gone }
  | streamed {body taken written gone complete} (request : Request) (text : Text)
      (read : parseGenerateRequest lib.parse body = .ok request.spec) (known : request ∈ accepted)
      (own : request.sink = true) (sent : Chunks lib taken text) (part : written <+: text)
      (whole : complete = true → written = text ∧
        ∃ front last, taken = front ++ [last] ∧ last.terminal = true ∧ ∀ ev ∈ front, ev.terminal = false) :
      Stands lib accepted promises
        { endpoint := .stream
          body
          pc := .done (.streamed complete)
          id := some request.id
          accepted := true
          taken
          written
          gone }
  | choked {body taken written gone} (request : Request) (e : JsonException) (ev : StreamingSink.Event)
      (read : parseGenerateRequest lib.parse body = .ok request.spec) (known : request ∈ accepted)
      (own : request.sink = true) (sent : Chunks lib taken written) (threw : chunk lib ev = .error e) :
      Stands lib accepted promises
        { endpoint := .stream
          body
          pc := .done (.threw e)
          id := some request.id
          accepted := true
          taken := taken ++ [ev]
          written
          gone }

theorem Handler.Stands.mono {lib : JsonLibrary} {accepted accepted' : List Request}
    {promises promises' : Nat → Option GenResult} {h : Handler} (stands : h.Stands lib accepted promises)
    (more : accepted ⊆ accepted') (kept : ∀ id result, promises id = some result → promises' id = some result) :
    h.Stands lib accepted' promises' := by
  cases stands with
  | parsing endpoint body => exact .parsing endpoint body
  | numbering read => exact .numbering read
  | pushing request read kind => exact .pushing request read kind
  | waiting request read known buffered => exact .waiting request read (more known) buffered
  | streaming request read known own sent running =>
    exact .streaming request read (more known) own sent running
  | refused message bad => exact .refused message bad
  | unread e threw => exact .unread e threw
  | shed request read => exact .shed request read
  | answered request result read known buffered fulfilled =>
    exact .answered request result read (more known) buffered (kept _ _ fulfilled)
  | streamed request text read known own sent part whole =>
    exact .streamed request text read (more known) own sent part whole
  | choked request e ev read known own sent threw => exact .choked request e ev read (more known) own sent threw

section Stands

variable {lib : JsonLibrary} {accepted : List Request} {promises : Nat → Option GenResult} {h : Handler}
variable {id : Nat}

theorem Handler.Stands.id_waiting (stands : h.Stands lib accepted promises) (pc : h.pc = .waiting id) :
    h.id = some id := by
  cases stands with
  | waiting =>
    cases pc
    rfl
  | _ => cases pc

theorem Handler.Stands.id_streaming (stands : h.Stands lib accepted promises) (pc : h.pc = .streaming id) :
    h.id = some id := by
  cases stands with
  | streaming =>
    cases pc
    rfl
  | _ => cases pc

end Stands

namespace Serve

variable {τ : Type} {lib : JsonLibrary} {work : Worker τ} {thread : τ} {capacity : Nat}

/-! ## The steps -/

/-- What a handler does next that has written an event of its stream, and the flags then. -/
inductive Wrote (s : Serve τ) (id : Nat) (ev : StreamingSink.Event) :
    Wire → HandlerPc → (Nat → Bool) → Prop where
  | last (wire : Wire) (terminal : ev.terminal = true) :
      Wrote s id ev wire (.done (.streamed (wire = .fine))) s.cancel
  | goesOn (delta : ev.terminal = false) : Wrote s id ev .fine (.streaming id) s.cancel
  | warned (delta : ev.terminal = false) (down : s.shuttingDown = true) :
      Wrote s id ev .fine (.streaming id) (Function.update s.cancel id true)
  | lost (sent : Nat) (delta : ev.terminal = false) :
      Wrote s id ev (.broken sent) (.done (.streamed false)) (Function.update s.cancel id true)

/-- What a step of the server can be. -/
inductive Move (lib : JsonLibrary) (work : Worker τ) (s : Serve τ) : List Event → Serve τ → Prop where
  | connect (endpoint : Endpoint) (body : Text) (listening : s.listening = true) :
      Move lib work s []
        { s with handlers := s.handlers ++ [{ endpoint := endpoint, body := body }] }
  | parse {i h} (here : s.handlers[i]? = some h) (pc : h.pc = .parsing) :
      Move lib work s [] (s.put i (h.parse lib))
  | number {i h spec} (here : s.handlers[i]? = some h) (pc : h.pc = .numbering spec) :
      Move lib work s [] (s.number i h spec)
  | submit {i h request} (here : s.handlers[i]? = some h) (pc : h.pc = .pushing request) :
      Move lib work s [] (s.submit lib i h request)
  | answer {i h id result} (here : s.handlers[i]? = some h) (pc : h.pc = .waiting id)
      (fulfilled : s.promises id = some result) :
      Move lib work s [] (s.put i { h with pc := .done (respond lib result) })
  | poll : Move lib work s [] s
  | giveUp {i id} {h : Handler} (wire : Wire) (here : s.handlers[i]? = some h) (pc : h.pc = .waiting id)
      (why : wire ≠ .fine ∨ s.shuttingDown = true) :
      Move lib work s [] ((s.put i { h with gone := h.gone || wire ≠ Wire.fine }).raise id)
  | choke {i id ev rest e} {h : Handler} (here : s.handlers[i]? = some h) (pc : h.pc = .streaming id)
      (next : (s.sinks id).events = ev :: rest) (threw : chunk lib ev = .error e) :
      Move lib work s [] ({ s with sinks := Function.update s.sinks id { events := rest } }.put i
        { h with taken := h.taken ++ [ev], pc := .done (.threw e) })
  | write {i id ev rest text wire pc' cancel} {h : Handler} (here : s.handlers[i]? = some h)
      (pc : h.pc = .streaming id) (next : (s.sinks id).events = ev :: rest) (made : chunk lib ev = .ok text)
      (wrote : Wrote s id ev wire pc' cancel) :
      Move lib work s [] ({ s with
          sinks := Function.update s.sinks id { events := rest }
          cancel := cancel }.put i
        { h with
          taken := h.taken ++ [ev]
          written := h.written ++ wire.passes text
          gone := h.gone || wire ≠ Wire.fine
          pc := pc' })
  | cut {i h id} (here : s.handlers[i]? = some h) (pc : h.pc = .streaming id) :
      Move lib work s [] (s.put i { h with pc := .done (.streamed false) })
  | signal : Move lib work s [] { s with shuttingDown := true }
  | stop : Move lib work s [] { s with listening := false }
  | close : Move lib work s [] { s with server := s.server.close }
  | run {events thread queue} (stepped : work.step s.server.thread s.server.queue = some (events, thread, queue))
      (honest : s.honest work = true) : Move lib work s events (s.absorb events thread queue)

theorem handle_move {i : Nat} {h : Handler} {wire : Wire} {s s' : Serve τ} (here : s.handlers[i]? = some h)
    (handled : s.handle lib i h wire = some s') : Move lib work s [] s' := by
  unfold handle at handled
  split at handled
  · rename_i pc
    cases handled
    exact .parse here pc
  · rename_i pc
    cases handled
    exact .number here pc
  · rename_i pc
    cases handled
    exact .submit here pc
  · rename_i pc
    cases handled
    unfold poll
    split
    · rename_i fulfilled
      exact .answer here pc fulfilled
    · split
      · rename_i why
        exact .giveUp wire here pc why
      · exact .poll
  · rename_i id pc
    simp only [provide, StreamingSink.next] at handled
    split at handled
    · cases handled
    · rename_i ev sink next
      split at next
      · rename_i rest events
        cases next
        split at handled
        · rename_i threw
          cases handled
          exact .choke here pc events threw
        · rename_i made
          cases handled
          unfold wrote
          split
          · rename_i terminal
            exact .write here pc events made (.last wire terminal)
          · rename_i delta
            have delta : ev.terminal = false := by simpa using delta
            cases wire with
            | fine =>
              rw [if_pos rfl]
              split
              · rename_i down
                have moved : Move lib work s [] _ := .write here pc events made (.warned delta down)
                rwa [← pc] at moved
              · have moved : Move lib work s [] _ := .write here pc events made (.goesOn delta)
                rwa [← pc] at moved
            | broken sent => exact .write here pc events made (.lost sent delta)
      · cases next
  · cases handled

theorem step_move {s s' : Serve τ} {events : List Event}
    (stepped : (machine lib work thread capacity).step s events s') : Move lib work s events s' := by
  obtain ⟨act, acted⟩ := stepped
  cases act with
  | connect endpoint body =>
    simp only [Serve.act] at acted
    split at acted
    · rename_i listening
      cases acted
      exact .connect endpoint body listening
    · cases acted
  | handle i wire =>
    simp only [Serve.act] at acted
    split at acted
    · rename_i h here
      obtain ⟨t, handled, same⟩ := Option.map_eq_some_iff.mp acted
      cases same
      exact handle_move here handled
    · cases acted
  | cut i =>
    simp only [Serve.act] at acted
    split at acted
    · rename_i h here
      split at acted
      · rename_i pc
        cases acted
        exact .cut here pc
      · cases acted
    · cases acted
  | signal =>
    cases acted
    exact .signal
  | stop =>
    cases acted
    exact .stop
  | close =>
    cases acted
    exact .close
  | run =>
    simp only [Serve.act] at acted
    split at acted
    · rename_i stepped
      split at acted
      · rename_i honest
        cases acted
        exact .run stepped honest
      · cases acted
    · cases acted

/-! ## How the handlers stand -/

theorem mem_put {i : Nat} {h h' : Handler} {s : Serve τ} (member : h' ∈ (s.put i h).handlers) :
    h' = h ∨ h' ∈ s.handlers := (List.mem_or_eq_of_mem_set member).symm

/-- Every handler stands. -/
def AllStand (lib : JsonLibrary) (s : Serve τ) : Prop :=
  ∀ h ∈ s.handlers, h.Stands lib s.server.accepted s.promises

namespace AllStand

variable {s : Serve τ} {i : Nat} {h h' : Handler}

theorem at_ (all : s.AllStand lib) (here : s.handlers[i]? = some h) :
    h.Stands lib s.server.accepted s.promises := all h (List.mem_of_getElem? here)

/-- One handler has changed. -/
theorem put (all : s.AllStand lib) (stands : h'.Stands lib s.server.accepted s.promises) :
    (s.put i h').AllStand lib := by
  intro h member
  rcases mem_put member with rfl | old
  · exact stands
  · exact all h old

/-- What is accepted or fulfilled stays so. -/
theorem mono {t : Serve τ} (all : s.AllStand lib) (handlers : t.handlers = s.handlers)
    (more : s.server.accepted ⊆ t.server.accepted)
    (kept : ∀ id result, s.promises id = some result → t.promises id = some result) : t.AllStand lib := by
  intro h member
  rw [handlers] at member
  exact (all h member).mono more kept

end AllStand

theorem Move.stands {s s' : Serve τ} {events : List Event} (move : Move lib work s events s')
    (all : s.AllStand lib) : s'.AllStand lib := by
  cases move with
  | connect endpoint body =>
    intro h member
    rcases List.mem_append.mp member with old | new
    · exact all h old
    · rw [List.mem_singleton.mp new]
      exact .parsing endpoint body
  | parse here pc =>
    refine all.put ?_
    have stands := all.at_ here
    cases stands with
    | parsing =>
      unfold Handler.parse
      split
      · rename_i read
        exact .numbering read
      · rename_i bad
        exact .refused _ bad
      · rename_i threw
        exact .unread _ threw
    | _ => cases pc
  | @number i h spec here pc =>
    have stands := all.at_ here
    cases stands with
    | numbering read =>
      cases pc
      exact AllStand.put (s := { s with nextId := s.nextId + 1 }) all (.pushing _ read rfl)
    | _ => cases pc
  | @submit i h request here pc =>
    have stands := all.at_ here
    cases stands with
    | @pushing endpoint body request' read kind =>
      cases pc
      have kept : AllStand lib { s with server := s.server.push request } :=
        all.mono rfl (Server.push_accepted_subset request s.server) fun _ _ same => same
      refine kept.put ?_
      cases fits : (s.server.queue.tryPush request).1 with
      | true =>
        have known : request ∈ (s.server.push request).accepted := by simp [Server.push, fits]
        cases endpoint with
        | generate => exact .waiting request read known kind
        | stream => exact .streaming request read known kind (.nil lib) (by simp)
      | false => exact .shed request read
    | _ => cases pc
  | answer here pc fulfilled =>
    have stands := all.at_ here
    cases stands with
    | waiting request read known buffered =>
      cases pc
      exact all.put (.answered request _ read known buffered fulfilled)
    | _ => cases pc
  | poll => exact all
  | giveUp wire here pc =>
    have stands := all.at_ here
    cases stands with
    | waiting request read known buffered =>
      cases pc
      exact all.put (.waiting request read known buffered)
    | _ => cases pc
  | choke here pc next threw =>
    have stands := all.at_ here
    cases stands with
    | streaming request read known own sent more =>
      cases pc
      exact AllStand.put (s := { s with sinks := _ }) all (.choked request _ _ read known own sent threw)
    | _ => cases pc
  | @write i id ev rest text wire pc' cancel h here pc next made wrote =>
    have stands := all.at_ here
    cases stands with
    | @streaming body taken written gone request read known own sent more =>
      cases pc
      obtain ⟨whole, chunks, part, passed⟩ := sent.passes made wire
      refine AllStand.put (s := { s with sinks := _, cancel := cancel }) all ?_
      cases wrote with
      | last _ terminal =>
        refine .streamed request whole read known own chunks part fun complete => ?_
        exact ⟨passed (of_decide_eq_true complete), taken, ev, rfl, terminal, more⟩
      | lost => exact .streamed request whole read known own chunks part (by simp)
      | goesOn delta | warned delta =>
        refine .streaming request read known own (passed rfl ▸ chunks) fun e member => ?_
        rcases List.mem_append.mp member with old | new
        · exact more e old
        · rw [List.mem_singleton.mp new]
          exact delta
    | _ => cases pc
  | cut here pc =>
    have stands := all.at_ here
    cases stands with
    | streaming request read known own sent more =>
      exact all.put (.streamed request _ read known own sent List.prefix_rfl (by simp))
    | _ => cases pc
  | signal | stop | close => exact all
  | run stepped =>
    refine all.mono rfl (List.Subset.refl _) ?_
    intro id result fulfilled
    show (s.promises id).or _ = _
    rw [fulfilled]
    rfl

/-! ## Numbers -/

section Put

variable {s : Serve τ} {i j : Nat} {h h' other : Handler}

theorem put_at (here : s.handlers[i]? = some h) : (s.put i h').handlers[i]? = some h' := by
  obtain ⟨inside, _⟩ := List.getElem?_eq_some_iff.mp here
  simp [put, inside]

theorem put_elsewhere (apart : i ≠ j) : (s.put i h').handlers[j]? = s.handlers[j]? :=
  List.getElem?_set_ne apart

theorem mem_put_self (here : s.handlers[i]? = some h) : h' ∈ (s.put i h').handlers :=
  List.mem_of_getElem? (put_at here)

theorem mem_put_of_ne (here : s.handlers[i]? = some h) (member : other ∈ s.handlers) (different : other ≠ h) :
    other ∈ (s.put i h').handlers := by
  obtain ⟨j, there⟩ := List.mem_iff_getElem?.mp member
  have apart : i ≠ j := by
    rintro rfl
    rw [here] at there
    exact different (Option.some.inj there).symm
  apply List.mem_of_getElem? (i := j)
  rw [put_elsewhere apart]
  exact there

/-- A handler after the change is the one that changed, or was there before. -/
theorem put_getElem? (there : (s.put i h').handlers[j]? = some other) :
    i = j ∧ other = h' ∨ i ≠ j ∧ s.handlers[j]? = some other := by
  by_cases apart : i = j
  · subst apart
    have inside := (List.getElem?_eq_some_iff.mp there).1
    left
    rw [put, List.getElem?_set_self (by simpa [put] using inside)] at there
    exact ⟨rfl, (Option.some.inj there).symm⟩
  · rw [put_elsewhere apart] at there
    exact .inr ⟨apart, there⟩

end Put

/-- Every number belongs to one handler. -/
structure Named (s : Serve τ) : Prop where
  below : ∀ h ∈ s.handlers, ∀ id, h.id = some id → id < s.nextId
  distinct : ∀ (i j : Nat) (a b : Handler) (id : Nat), s.handlers[i]? = some a → s.handlers[j]? = some b →
    a.id = some id → b.id = some id → i = j

/-- And every accepted request to the handler with its number. -/
structure Numbered (s : Serve τ) : Prop extends Named s where
  owned : ∀ r ∈ s.server.accepted, ∃ h ∈ s.handlers, h.id = some r.id ∧ h.accepted = true ∧
    r.sink = (h.endpoint = .stream : Bool)

section Numbered

variable {s t : Serve τ} {i : Nat} {h h' : Handler}

/-- There is only one handler with a number. -/
theorem Named.unique {a b : Handler} {id : Nat} (named : s.Named) (first : a ∈ s.handlers)
    (second : b ∈ s.handlers) (own : a.id = some id) (same : b.id = some id) : a = b := by
  obtain ⟨i, here⟩ := List.mem_iff_getElem?.mp first
  obtain ⟨j, there⟩ := List.mem_iff_getElem?.mp second
  cases named.distinct i j a b id here there own same
  rw [here] at there
  exact Option.some.inj there

/-- A handler that keeps its number. -/
theorem Named.put (named : s.Named) (here : s.handlers[i]? = some h) (id : h'.id = h.id) :
    (s.put i h').Named where
  below a member n own := by
    rcases mem_put member with rfl | old
    · rw [id] at own
      exact named.below h (List.mem_of_getElem? here) n own
    · exact named.below a old n own
  distinct j k a b n first second own same := by
    -- whoever changed has the number it had
    have before : ∀ {l : Nat} {c : Handler}, (s.put i h').handlers[l]? = some c → c.id = some n →
        ∃ d : Handler, s.handlers[l]? = some d ∧ d.id = some n := by
      intro l c there has
      rcases put_getElem? there with ⟨rfl, rfl⟩ | ⟨_, old⟩
      · exact ⟨h, here, id ▸ has⟩
      · exact ⟨c, old, has⟩
    obtain ⟨a', first', own'⟩ := before first own
    obtain ⟨b', second', same'⟩ := before second same
    exact named.distinct j k a' b' n first' second' own' same'

theorem Numbered.congr (numbered : s.Numbered) (handlers : t.handlers = s.handlers)
    (nextId : t.nextId = s.nextId) (accepted : t.server.accepted = s.server.accepted) : t.Numbered := by
  obtain ⟨⟨below, distinct⟩, owned⟩ := numbered
  rw [← handlers] at below distinct owned
  rw [← nextId] at below
  rw [← accepted] at owned
  exact ⟨⟨below, distinct⟩, owned⟩

theorem Numbered.put (numbered : s.Numbered) (here : s.handlers[i]? = some h) (id : h'.id = h.id)
    (accepted : h'.accepted = h.accepted) (endpoint : h'.endpoint = h.endpoint) : (s.put i h').Numbered where
  toNamed := numbered.toNamed.put here id
  owned r member := by
    obtain ⟨owner, inside, own, took, kind⟩ := numbered.owned r member
    by_cases changed : owner = h
    · subst changed
      exact ⟨h', mem_put_self here, id.trans own, accepted.trans took, by rw [endpoint]; exact kind⟩
    · exact ⟨owner, mem_put_of_ne here inside changed, own, took, kind⟩

/-- The same with other changes that do not matter here. -/
theorem Numbered.change (numbered : s.Numbered) (here : s.handlers[i]? = some h)
    (handlers : t.handlers = (s.put i h').handlers) (id : h'.id = h.id) (accepted : h'.accepted = h.accepted)
    (endpoint : h'.endpoint = h.endpoint) (nextId : t.nextId = s.nextId)
    (same : t.server.accepted = s.server.accepted) : t.Numbered :=
  (numbered.put here id accepted endpoint).congr handlers nextId same

/-- The numbers of those at the queue have not been accepted. -/
theorem Numbered.fresh {request : Request} (numbered : s.Numbered) (stands : s.AllStand lib)
    (here : s.handlers[i]? = some h) (pc : h.pc = .pushing request) :
    request.id ∉ s.server.accepted.map Request.id := by
  intro twice
  obtain ⟨r, member, same⟩ := List.mem_map.mp twice
  obtain ⟨owner, inside, own, took, _⟩ := numbered.owned r member
  have at_ := stands.at_ here
  cases at_ with
  | pushing =>
    cases pc
    have identical := numbered.unique (List.mem_of_getElem? here) inside rfl (own.trans (by rw [same]))
    rw [← identical] at took
    cases took
  | _ => cases pc

end Numbered

theorem Move.numbered {s s' : Serve τ} {events : List Event} (move : Move lib work s events s')
    (stands : s.AllStand lib) (numbered : s.Numbered) : s'.Numbered := by
  cases move with
  | connect endpoint body =>
    -- a handler without a number joins
    have old : ∀ {j id : Nat} {c : Handler}, (s.handlers ++ [{ endpoint := endpoint, body := body }])[j]? = some c →
        c.id = some id → s.handlers[j]? = some c := by
      intro j c id there has
      by_cases inside : j < s.handlers.length
      · rwa [List.getElem?_append_left inside] at there
      · rw [List.getElem?_append_right (by omega)] at there
        have new := List.mem_singleton.mp (List.mem_of_getElem? there)
        rw [new] at has
        cases has
    refine ⟨⟨?_, ?_⟩, ?_⟩
    · intro h member id own
      rcases List.mem_append.mp member with before | new
      · exact numbered.below h before id own
      · rw [List.mem_singleton.mp new] at own
        cases own
    · intro j k a b id first second own same
      exact numbered.distinct j k a b id (old first own) (old second same) own same
    · intro r member
      obtain ⟨owner, inside, rest⟩ := numbered.owned r member
      exact ⟨owner, List.mem_append_left _ inside, rest⟩
  | parse here pc => exact numbered.put here rfl rfl rfl
  | @number i h spec here pc =>
    have at_ := stands.at_ here
    have bare : h.id = none := by
      cases at_ with
      | numbering => rfl
      | _ => cases pc
    refine ⟨⟨?_, ?_⟩, ?_⟩
    · intro a member id own
      rcases mem_put member with rfl | old
      · cases own
        exact Nat.lt_succ_self _
      · exact Nat.lt_succ_of_lt (numbered.below a old id own)
    · intro j k a b id first second own same
      rcases put_getElem? first with ⟨rfl, rfl⟩ | ⟨_, old⟩ <;>
        rcases put_getElem? second with ⟨rfl, rfl⟩ | ⟨_, old'⟩
      · rfl
      · cases own
        exact absurd (numbered.below b (List.mem_of_getElem? old') _ same) (Nat.lt_irrefl _)
      · cases same
        exact absurd (numbered.below a (List.mem_of_getElem? old) _ own) (Nat.lt_irrefl _)
      · exact numbered.distinct j k a b id old old' own same
    · intro r member
      obtain ⟨owner, inside, own, rest⟩ := numbered.owned r member
      refine ⟨owner, mem_put_of_ne here inside ?_, own, rest⟩
      rintro rfl
      rw [bare] at own
      cases own
  | @submit i h request here pc =>
    have at_ := stands.at_ here
    cases at_ with
    | @pushing endpoint body request' read kind =>
      cases pc
      have named : (s.put i (Handler.pushed lib (s.server.queue.tryPush request).1 request
          { endpoint, body, pc := .pushing request, id := some request.id })).Named :=
        numbered.toNamed.put here rfl
      refine ⟨⟨named.below, named.distinct⟩, ?_⟩
      intro r member
      -- the queue may have taken the request that is pushed, whose handler is this one
      rcases Server.mem_push member with old | ⟨taken, rfl⟩
      · obtain ⟨owner, inside, own, took, rest⟩ := numbered.owned r old
        refine ⟨owner, mem_put_of_ne here inside ?_, own, took, rest⟩
        rintro rfl
        cases took
      · exact ⟨_, mem_put_self here, rfl, taken, kind⟩
    | _ => cases pc
  | answer here pc => exact numbered.put here rfl rfl rfl
  | poll => exact numbered
  | giveUp wire here pc => exact numbered.change here rfl rfl rfl rfl rfl rfl
  | choke here pc => exact numbered.change here rfl rfl rfl rfl rfl rfl
  | write here => exact numbered.change here rfl rfl rfl rfl rfl rfl
  | cut here pc => exact numbered.put here rfl rfl rfl
  | signal | stop | close | run => exact numbered.congr rfl rfl rfl

variable {past : List Event} {s : Serve τ}

theorem stands_run (run : (machine lib work thread capacity).Run past s) : s.AllStand lib ∧ s.Numbered := by
  refine run.invariant (fun _ s => s.AllStand lib ∧ s.Numbered) ?_ ?_
  · rintro s rfl
    exact ⟨by simp [AllStand], ⟨by simp, by simp⟩, by simp⟩
  · rintro past s events t ⟨stands, numbered⟩ step
    have move := step_move step
    exact ⟨move.stands stands, move.numbered stands numbered⟩

/-! ## What the scheduler sees -/

/-- Whatever the handlers do, to the scheduler they are clients that push requests with fresh numbers
    and in the end close the queue. -/
theorem follows : (machine lib work thread capacity).Follows (Server.machine work.step thread capacity) some
    fun s t => s.server = t where
  init := by
    rintro s rfl
    exact ⟨_, rfl, rfl⟩
  step := by
    rintro past s events s' t run rfl step
    obtain ⟨stands, numbered⟩ := stands_run run
    rw [List.filterMap_some]
    cases step_move step with
    | submit here pc => exact ⟨_, .one (.push _ (numbered.fresh stands here pc)), rfl⟩
    | close => exact ⟨_, .one .close, rfl⟩
    | run stepped => exact ⟨_, .one (.run stepped), rfl⟩
    | _ => exact ⟨_, .none _, rfl⟩

theorem server_run (run : (machine lib work thread capacity).Run past s) :
    (Server.machine work.step thread capacity).Run past s.server := by
  obtain ⟨t, run', rfl⟩ := follows.run run
  rwa [List.filterMap_some] at run'

/-! ## What the handlers see -/

/-- The promises and the sinks hold what the scheduler thread has put there, but for what the handlers
    have taken out. -/
structure Mirrored (past : List Event) (s : Serve τ) : Prop where
  promises : ∀ id, s.promises id = past.findSome? (Event.resultFor id)
  taken : ∀ h ∈ s.handlers, ∀ id, h.id = some id →
    h.taken ++ (s.sinks id).events = StreamingSink.said id past
  unclaimed : ∀ id, (∀ h ∈ s.handlers, h.id ≠ some id) → (s.sinks id).events = StreamingSink.said id past

section Mirrored

variable {t : Serve τ} {i : Nat} {h h' : Handler}

/-- A handler that keeps its number and takes nothing. -/
theorem Mirrored.change (mirrored : s.Mirrored past) (here : s.handlers[i]? = some h)
    (handlers : t.handlers = (s.put i h').handlers) (id : h'.id = h.id) (taken : h'.taken = h.taken)
    (promises : t.promises = s.promises) (sinks : t.sinks = s.sinks) : t.Mirrored past where
  promises n := by rw [promises, mirrored.promises]
  taken a member n own := by
    rw [sinks]
    rw [handlers] at member
    rcases mem_put member with rfl | old
    · rw [taken]
      exact mirrored.taken h (List.mem_of_getElem? here) n (id ▸ own)
    · exact mirrored.taken a old n own
  unclaimed n nobody := by
    rw [sinks]
    apply mirrored.unclaimed
    intro a member own
    rw [handlers] at nobody
    by_cases changed : a = h
    · subst changed
      exact nobody h' (mem_put_self here) (id.trans own)
    · exact nobody a (mem_put_of_ne here member changed) own

/-- A handler that takes the next event of its sink. -/
theorem Mirrored.take {id : Nat} {ev : StreamingSink.Event} {rest : List StreamingSink.Event}
    (mirrored : s.Mirrored past) (named : s.Named) (here : s.handlers[i]? = some h) (own : h.id = some id)
    (next : (s.sinks id).events = ev :: rest) (handlers : t.handlers = (s.put i h').handlers)
    (same : h'.id = h.id) (taken : h'.taken = h.taken ++ [ev]) (promises : t.promises = s.promises)
    (sinks : t.sinks = Function.update s.sinks id { events := rest }) : t.Mirrored past where
  promises n := by rw [promises, mirrored.promises]
  taken a member n has := by
    rw [handlers] at member
    obtain ⟨j, there⟩ := List.mem_iff_getElem?.mp member
    rcases put_getElem? there with ⟨rfl, rfl⟩ | ⟨apart, old⟩
    · rw [same, own] at has
      cases has
      have before := mirrored.taken h (List.mem_of_getElem? here) id own
      rw [next] at before
      rw [taken, sinks, Function.update_self, ← before]
      simp
    · have other : n ≠ id := by
        rintro rfl
        exact apart (named.distinct i j h a n here old own has)
      rw [sinks, Function.update_of_ne other]
      exact mirrored.taken a (List.mem_of_getElem? old) n has
  unclaimed n nobody := by
    rw [handlers] at nobody
    have other : n ≠ id := by
      rintro rfl
      exact nobody h' (mem_put_self here) (same.trans own)
    rw [sinks, Function.update_of_ne other]
    apply mirrored.unclaimed
    intro a member has
    by_cases changed : a = h
    · subst changed
      exact nobody h' (mem_put_self here) (same.trans has)
    · exact nobody a (mem_put_of_ne here member changed) has

theorem Move.mirrored {events : List Event} (move : Move lib work s events t) (stands : s.AllStand lib)
    (named : s.Named) (mirrored : s.Mirrored past) : t.Mirrored (past ++ events) := by
  -- the handlers themselves log nothing
  have silent : events = [] → t.Mirrored past → t.Mirrored (past ++ events) := by
    rintro rfl same
    rwa [List.append_nil]
  cases move with
  | connect endpoint body =>
    refine silent rfl ⟨mirrored.promises, ?_, ?_⟩
    · intro h member id own
      rcases List.mem_append.mp member with old | new
      · exact mirrored.taken h old id own
      · rw [List.mem_singleton.mp new] at own
        cases own
    · intro id nobody
      exact mirrored.unclaimed id fun h member => nobody h (List.mem_append_left _ member)
  | parse here pc => exact silent rfl (mirrored.change here rfl rfl rfl rfl rfl)
  | @number i h spec here pc =>
    have at_ := stands.at_ here
    cases at_ with
    | @numbering endpoint =>
      have unused : (s.sinks s.nextId).events = StreamingSink.said s.nextId past :=
        mirrored.unclaimed _ fun a member own => absurd (named.below a member _ own) (Nat.lt_irrefl _)
      refine silent rfl ⟨mirrored.promises, ?_, ?_⟩
      · intro a member id own
        rcases mem_put member with rfl | old
        · cases own
          exact unused
        · exact mirrored.taken a old id own
      · intro id nobody
        apply mirrored.unclaimed
        intro a member own
        refine nobody a (mem_put_of_ne here member ?_) own
        rintro rfl
        cases own
    | _ => cases pc
  | submit here pc => exact silent rfl (mirrored.change here rfl rfl rfl rfl rfl)
  | answer here pc => exact silent rfl (mirrored.change here rfl rfl rfl rfl rfl)
  | poll => exact silent rfl mirrored
  | giveUp wire here pc => exact silent rfl (mirrored.change here rfl rfl rfl rfl rfl)
  | choke here pc next | write here pc next =>
    exact silent rfl (mirrored.take named here ((stands.at_ here).id_streaming pc) next rfl rfl rfl rfl rfl)
  | cut here pc => exact silent rfl (mirrored.change here rfl rfl rfl rfl rfl)
  | signal | stop | close => exact silent rfl ⟨mirrored.promises, mirrored.taken, mirrored.unclaimed⟩
  | @run _ thread queue stepped =>
    have heard : ∀ id, ((s.absorb events thread queue).sinks id).events =
        (s.sinks id).events ++ StreamingSink.said id events := fun id => StreamingSink.hears_events _ _
    constructor
    · intro id
      rw [List.findSome?_append, ← mirrored.promises]
      rfl
    · intro h member id own
      rw [heard, StreamingSink.said_append, ← List.append_assoc, mirrored.taken h member id own]
    · intro id nobody
      rw [heard, StreamingSink.said_append, mirrored.unclaimed id nobody]

end Mirrored

theorem mirrored_run (run : (machine lib work thread capacity).Run past s) : s.Mirrored past := by
  have all : s.AllStand lib ∧ s.Numbered ∧ s.Mirrored past := by
    refine run.invariant (fun past s => s.AllStand lib ∧ s.Numbered ∧ s.Mirrored past) ?_ ?_
    · rintro s rfl
      exact ⟨by simp [AllStand], ⟨⟨by simp, by simp⟩, by simp⟩, fun _ => rfl, by simp, fun _ _ => rfl⟩
    · rintro past s events t ⟨stands, numbered, mirrored⟩ step
      have move := step_move step
      exact ⟨move.stands stands, move.numbered stands numbered, move.mirrored stands numbered.toNamed mirrored⟩
  exact all.2.2

/-! ## Flags -/

/-- A flag is raised for a client that is gone, or because the server shuts down. -/
def Excused (s : Serve τ) (id : Nat) : Prop :=
  s.shuttingDown = true ∨ ∃ h ∈ s.handlers, h.id = some id ∧ h.gone = true

section Flags

variable {t : Serve τ} {i : Nat} {h h' : Handler}

/-- An excuse stays one while handlers keep their numbers. -/
theorem Excused.change {id : Nat} (excused : s.Excused id) (here : s.handlers[i]? = some h)
    (handlers : t.handlers = (s.put i h').handlers) (same : h'.id = h.id) (gone : h.gone = true → h'.gone = true)
    (down : t.shuttingDown = s.shuttingDown) : t.Excused id := by
  rcases excused with shutting | ⟨a, member, own, left⟩
  · exact .inl (down.trans shutting)
  · right
    rw [handlers]
    by_cases changed : a = h
    · subst changed
      exact ⟨h', mem_put_self here, same.trans own, gone left⟩
    · exact ⟨a, mem_put_of_ne here member changed, own, left⟩

/-- A flag goes up if the connection was found to be gone or the server shuts down. -/
theorem Wrote.flags {id : Nat} {ev : StreamingSink.Event} {wire : Wire} {pc : HandlerPc} {cancel : Nat → Bool}
    (wrote : Wrote s id ev wire pc cancel) : cancel = s.cancel ∨
      cancel = Function.update s.cancel id true ∧ (wire ≠ .fine ∨ s.shuttingDown = true) := by
  cases wrote with
  | last | goesOn => exact .inl rfl
  | warned _ down => exact .inr ⟨rfl, .inr down⟩
  | lost => exact .inr ⟨rfl, .inl (by simp)⟩

theorem Move.cancel_mono {events : List Event} (move : Move lib work s events t) {id : Nat}
    (raised : s.cancel id = true) : t.cancel id = true := by
  have update : ∀ other, Function.update s.cancel other true id = true := by
    intro other
    by_cases same : id = other
    · rw [same, Function.update_self]
    · rw [Function.update_of_ne same, raised]
  cases move with
  | giveUp => exact update _
  | write _ _ _ _ wrote =>
    rcases wrote.flags with rfl | ⟨rfl, _⟩
    · exact raised
    · exact update _
  | _ => exact raised

theorem Move.excused {events : List Event} (move : Move lib work s events t) (stands : s.AllStand lib)
    (excused : ∀ id, s.cancel id = true → s.Excused id) : ∀ id, t.cancel id = true → t.Excused id := by
  -- a handler that keeps its number, and may raise its flag
  have raise : ∀ {i id : Nat} {h h' : Handler} {wire : Wire}, s.handlers[i]? = some h → h.id = some id →
      t.handlers = (s.put i h').handlers → h'.id = h.id → h'.gone = (h.gone || wire ≠ Wire.fine) →
      t.shuttingDown = s.shuttingDown →
      (t.cancel = s.cancel ∨ t.cancel = Function.update s.cancel id true ∧
        (wire ≠ .fine ∨ s.shuttingDown = true)) →
      ∀ n, t.cancel n = true → t.Excused n := by
    intro i id h h' wire here own handlers same gone down flags n raised
    have before : s.cancel n = true → t.Excused n := fun earlier =>
      (excused n earlier).change here handlers same (by rw [gone]; simp +contextual) down
    rcases flags with unchanged | ⟨updated, why⟩
    · exact before (unchanged ▸ raised)
    · by_cases mine : n = id
      · subst mine
        rcases why with broken | shutting
        · right
          rw [handlers]
          exact ⟨h', mem_put_self here, same.trans own, by rw [gone]; simp [broken]⟩
        · exact .inl (down.trans shutting)
      · rw [updated, Function.update_of_ne mine] at raised
        exact before raised
  cases move with
  | connect endpoint body =>
    intro id raised
    rcases excused id raised with shutting | ⟨h, member, rest⟩
    · exact .inl shutting
    · exact .inr ⟨h, List.mem_append_left _ member, rest⟩
  | parse here | submit here | answer here | choke here | cut here =>
    exact fun id raised => (excused id raised).change here rfl rfl (fun left => left) rfl
  | @number i h spec here pc =>
    intro id raised
    rcases excused id raised with shutting | ⟨a, member, own, left⟩
    · exact .inl shutting
    · refine .inr ⟨a, mem_put_of_ne here member ?_, own, left⟩
      rintro rfl
      have at_ := stands.at_ here
      cases at_ with
      | numbering => cases own
      | _ => cases pc
  | poll => exact excused
  | giveUp wire here pc why =>
    exact raise here ((stands.at_ here).id_waiting pc) rfl rfl rfl rfl (.inr ⟨rfl, why⟩)
  | write here pc _ _ wrote =>
    exact raise here ((stands.at_ here).id_streaming pc) rfl rfl rfl rfl wrote.flags
  | signal => exact fun _ _ => .inl rfl
  | stop | close | run => exact excused

theorem excused_run (run : (machine lib work thread capacity).Run past s) {id : Nat} (raised : s.cancel id = true) :
    s.Excused id := by
  have all : s.AllStand lib ∧ ∀ id, s.cancel id = true → s.Excused id := by
    refine run.invariant (fun _ s => s.AllStand lib ∧ ∀ id, s.cancel id = true → s.Excused id) ?_ ?_
    · rintro s rfl
      exact ⟨by simp [AllStand], by simp⟩
    · rintro past s events t ⟨stands, excused⟩ step
      have move := step_move step
      exact ⟨move.stands stands, move.excused stands excused⟩
  exact all.2 id raised

/-- The scheduler is told of a cancelled request only if its flag is up, then and ever after. -/
theorem heeding_run (run : (machine lib work thread capacity).Run past s) :
    ((Server.machine work.step thread capacity).guarded (Server.Heeds work.asks s.cancel)).Run past s.server := by
  induction run with
  | start initial =>
    cases initial
    exact .start rfl
  | @next past s events t earlier step ih =>
    obtain ⟨stands, numbered⟩ := stands_run earlier
    have move := step_move step
    -- flags do not go down
    have sofar :
        ((Server.machine work.step thread capacity).guarded (Server.Heeds work.asks t.cancel)).Run past s.server :=
      ih.mono fun _ _ _ heeds id asked => (heeds id asked).imp_right fun raised => move.cancel_mono raised
    cases move with
    | submit here pc =>
      exact sofar.next ⟨.push _ (numbered.fresh stands here pc), fun _ _ => .inl rfl⟩
    | close => exact sofar.next ⟨.close, fun _ _ => .inl rfl⟩
    | run stepped honest =>
      refine sofar.next ⟨.run stepped, fun id asked => .inr ?_⟩
      show s.cancel id = true
      simpa [Serve.honest, asked] using honest
    | _ =>
      rw [List.append_nil]
      exact sofar

end Flags

/-! ## The end -/

section Quiescent

variable {t : Serve τ} {events : List Event}

/-- Where no connection is taken and every handler has returned, none comes in and none takes a step. -/
theorem Move.idle (move : Move lib work s events t) (quiet : s.Quiescent) :
    t.listening = false ∧ t.handlers = s.handlers := by
  have returned : ∀ {i : Nat} {h : Handler}, s.handlers[i]? = some h → h.pc.finished = false →
      t.listening = false ∧ t.handlers = s.handlers := by
    intro i h here running
    rw [quiet.2 h (List.mem_of_getElem? here)] at running
    cases running
  cases move with
  | connect _ _ listening =>
    rw [quiet.1] at listening
    cases listening
  | parse here pc | number here pc | submit here pc | answer here pc | giveUp _ here pc | choke here pc
  | write here pc | cut here pc => exact returned here (by rw [pc]; rfl)
  | stop => exact ⟨rfl, rfl⟩
  | poll | signal | close | run => exact ⟨quiet.1, rfl⟩

theorem Move.quiescent (move : Move lib work s events t) (quiet : s.Quiescent) : t.Quiescent := by
  obtain ⟨deaf, same⟩ := move.idle quiet
  refine ⟨deaf, ?_⟩
  rw [same]
  exact quiet.2

end Quiescent

/-- If `listen` returns when its handlers have, a closed queue has none left. -/
theorem quiescent_run (run : ((machine lib work thread capacity).guarded ListenJoins).Run past s)
    (closed : s.server.queue.closed = true) : s.Quiescent := by
  induction run with
  | start initial =>
    cases initial
    cases closed
  | next _ step before =>
    obtain ⟨step, joins⟩ := step
    rcases joins closed with earlier | quiet
    · exact (step_move step).quiescent (before earlier)
    · exact (step_move step).quiescent quiet

end Serve

end MicroVllm
