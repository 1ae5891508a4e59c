import MicroVllm.Http.Threads
import MicroVllm.Scheduler.Isolation

/-! # What clients get

The handlers and the scheduler put together, in every interleaving: what a finished handler has answered,
that nobody waits for an answer that does not come, why a request is cancelled or turned away, and what is
left when the queue is closed.
-/

namespace MicroVllm

open HttpApi
open JsonLibrary (requestText responseText)

theorem Event.resultFor_eq_some {id : Nat} {e : Event} {result : GenResult} :
    e.resultFor id = some result ↔ e = .setValue id result := by
  cases e with
  | setValue owner result' =>
    simp only [resultFor, Event.setValue.injEq]
    split <;> simp_all
  | _ => simp [resultFor]

namespace Serve

variable {σ : Type} {lib : JsonLibrary} {w : World σ} {config : SchedulerConfig} {capacity : Nat} {world : σ}
variable {past : List Event} {s : Serve (Thread σ)}

theorem scheduler_run (run : (program lib w config capacity world).Run past s) :
    (Thread.server w config capacity world).Run past s.server := server_run run

/-- A promise holds a result that the scheduler has delivered. -/
theorem delivered_of_promise (run : (program lib w config capacity world).Run past s) {id : Nat}
    {result : GenResult} (kept : s.promises id = some result) : .setValue id result ∈ past := by
  rw [(mirrored_run run).promises, List.findSome?_eq_some_iff] at kept
  obtain ⟨before, e, after, rfl, found, _⟩ := kept
  rw [Event.resultFor_eq_some] at found
  simp [found]

/-- A promise holds the one result of its request, which says how it ended. -/
theorem answered_once (run : (program lib w config capacity world).Run past s) {id : Nat}
    {result : GenResult} (kept : s.promises id = some result) :
    .setValue id result ∈ past ∧ (fulfilled past).count id = 1 ∧ result.reason ≠ .unset := by
  have scheduler := scheduler_run run
  have delivered := delivered_of_promise run kept
  have once : (fulfilled past).Nodup := (List.nodup_append.mp (Thread.counted scheduler).once).2.1
  refine ⟨delivered, ?_, Thread.reasoned scheduler delivered⟩
  exact List.count_eq_one_of_mem once (mem_fulfilled.mpr ⟨result, delivered⟩)

/-- The request of a handler that the queue did not take is not among the accepted ones. -/
theorem Numbered.not_accepted (numbered : s.Numbered) {h : Handler} (inside : h ∈ s.handlers)
    (refused : h.accepted = false) {id : Nat} (own : h.id = some id) : id ∉ requestIds s.server.accepted := by
  intro member
  obtain ⟨r, known, rfl⟩ := List.mem_map.mp member
  obtain ⟨owner, there, same, took, _⟩ := numbered.owned r known
  rw [numbered.unique there inside same own, refused] at took
  cases took

end Serve

/-! ## Requests -/

/-- Whatever connections come in, break and are handled in whatever order, the scheduler runs as it does
    behind clients that only push requests with fresh ids and close the queue; and the requests it has
    been given are those of the handlers that `try_push` let through, each as its body was parsed. -/
theorem serve_refines {σ : Type} (lib : JsonLibrary) (w : World σ) (config : SchedulerConfig) (capacity : Nat)
    (world : σ) (past : List Event) (s : Serve (Thread σ))
    (run : (Serve.program lib w config capacity world).Run past s) :
    (match config.mode with
      | .static => ∃ t, s.server = t.map .static ∧ (Server.static w config capacity world).Run past t
      | .continuous =>
        ∃ t, s.server = t.map .continuous ∧ (Server.continuous w config capacity world).Run past t) ∧
    (requestIds s.server.accepted).Nodup ∧
    ∀ r, r ∈ s.server.accepted ↔ ∃ h ∈ s.handlers, h.id = some r.id ∧ h.accepted = true ∧
      parseGenerateRequest lib.parse h.body = .ok r.spec ∧ r.sink = (h.endpoint = .stream : Bool) := by
  obtain ⟨stands, numbered⟩ := Serve.stands_run run
  have scheduler := Serve.scheduler_run run
  have nodup := (Thread.counted scheduler).nodup
  -- what a handler that was let through knows of its request
  have request : ∀ h ∈ s.handlers, h.accepted = true → ∃ r ∈ s.server.accepted, h.id = some r.id ∧
      parseGenerateRequest lib.parse h.body = .ok r.spec ∧ r.sink = (h.endpoint = .stream : Bool) := by
    intro h inside took
    have at_ := stands h inside
    cases at_ with
    | waiting r read known buffered => exact ⟨r, known, rfl, read, buffered⟩
    | streaming r read known own => exact ⟨r, known, rfl, read, own⟩
    | answered r _ read known buffered => exact ⟨r, known, rfl, read, buffered⟩
    | streamed r _ read known own => exact ⟨r, known, rfl, read, own⟩
    | choked r _ _ read known own => exact ⟨r, known, rfl, read, own⟩
    | _ => cases took
  refine ⟨?_, nodup, fun r => ⟨fun known => ?_, ?_⟩⟩
  · rcases Thread.run_mode scheduler.guarded_true with ⟨mode, t, same, moded⟩ | ⟨mode, t, same, moded⟩
    · rw [mode]
      exact ⟨t, same, moded.of_guarded⟩
    · rw [mode]
      exact ⟨t, same, moded.of_guarded⟩
  · obtain ⟨h, inside, own, took, _⟩ := numbered.owned r known
    obtain ⟨r', known', own', read, kind⟩ := request h inside took
    rw [own] at own'
    cases eq_of_id nodup known known' (Option.some.inj own')
    exact ⟨h, inside, own, took, read, kind⟩
  · rintro ⟨h, inside, own, took, read, kind⟩
    obtain ⟨r', known', own', read', kind'⟩ := request h inside took
    rw [own] at own'
    rw [read] at read'
    rw [← kind] at kind'
    -- the two have the same number, text and kind
    obtain ⟨id, spec, sink⟩ := r
    obtain ⟨id', spec', sink'⟩ := r'
    cases own'
    cases read'
    cases kind'
    exact known'

/-- The scheduler of two requests is that of any two clients. -/
theorem serve_refines_letter :
    ∃ past s, (Serve.program .sample Script.letter.world (.pair 8) 4 fun _ => none).Run past s ∧
      s.server.accepted.length = 2 ∧ ∃ t, s.server = t.map .continuous ∧
      (Server.continuous Script.letter.world (.pair 8) 4 fun _ => none).Run past t := by
  obtain ⟨past, s, run, two⟩ : ∃ past s,
      (Serve.program .sample Script.letter.world (.pair 8) 4 fun _ => none).Run past s ∧
      s.server.accepted.length = 2 :=
    Serve.exists_run ([.connect .generate (requestText "a"), .connect .stream (requestText "b")] ++
      List.replicate 3 (.handle 1 .fine) ++ List.replicate 10 .run ++ List.replicate 3 (.handle 0 .fine) ++
      List.replicate 10 .run) (by decide +kernel)
  obtain ⟨refines, _⟩ := serve_refines .sample Script.letter.world (.pair 8) 4 _ past s run
  exact ⟨past, s, run, two, refines⟩

/-- A handler of `/generate` that has returned answered the body it was given: 400 for one that is not a
    request, an exception where the JSON library threw one, and for a request either 503, and then the
    scheduler never had it, or what the one result says that the scheduler delivered for it. -/
theorem generate_answers {σ : Type} (lib : JsonLibrary) (w : World σ) (config : SchedulerConfig) (capacity : Nat)
    (world : σ) (past : List Event) (s : Serve (Thread σ))
    (run : (Serve.program lib w config capacity world).Run past s) (h : Handler) (inside : h ∈ s.handlers)
    (endpoint : h.endpoint = .generate) (reply : Reply) (done : h.pc = .done reply) :
    match parseGenerateRequest lib.parse h.body with
    | .error (.badRequest message) => reply = .make 400 (makeErrorResponse lib message)
    | .error (.json e) => reply = .threw e
    | .ok spec =>
      (reply = .make 503 (makeErrorResponse lib "server at capacity; retry later") ∧
        ∀ id, h.id = some id → id ∉ requestIds s.server.accepted) ∨
      ∃ id result, h.id = some id ∧ { id := id, spec := spec, sink := false } ∈ s.server.accepted ∧
        .setValue id result ∈ past ∧ (fulfilled past).count id = 1 ∧ result.reason ≠ .unset ∧
        reply = respond lib result := by
  obtain ⟨stands, numbered⟩ := Serve.stands_run run
  have at_ := stands h inside
  cases at_ with
  | refused message bad =>
    cases done
    rw [bad]
  | unread e threw =>
    cases done
    rw [threw]
  | shed request read =>
    cases done
    rw [read]
    exact .inl ⟨rfl, fun id own => numbered.not_accepted inside rfl own⟩
  | answered request result read known buffered kept =>
    cases done
    rw [read]
    obtain ⟨delivered, once, reason⟩ := Serve.answered_once run kept
    refine .inr ⟨request.id, result, rfl, ?_, delivered, once, reason, rfl⟩
    rw [← buffered]
    exact known
  | streamed | choked => cases endpoint
  | _ => cases done

/-- One request, all the way: it is parsed, queued, served and answered. -/
theorem generate_answers_letter :
    ∃ past s h id result,
      (Serve.program .sample Script.letter.world (.pair 8) 4 fun _ => none).Run past s ∧ h ∈ s.handlers ∧
      h.id = some id ∧ .setValue id result ∈ past ∧ (fulfilled past).count id = 1 ∧
      h.pc = .done (respond .sample result) := by
  obtain ⟨past, s, run, h, inside, endpoint, body, pc⟩ : ∃ past s,
      (Serve.program .sample Script.letter.world (.pair 8) 4 fun _ => none).Run past s ∧
      ∃ h ∈ s.handlers, h.endpoint = .generate ∧ h.body = requestText "a" ∧
        h.pc = .done (.response 200 responseText) :=
    Serve.exists_run ([.connect .generate (requestText "a")] ++ List.replicate 3 (.handle 0 .fine) ++
      List.replicate 49 .run ++ [.handle 0 .fine]) (by decide +kernel)
  have answers := generate_answers .sample Script.letter.world (.pair 8) 4 _ past s run h inside endpoint _ pc
  rw [body, JsonLibrary.sample_request] at answers
  rcases answers with ⟨busy, _⟩ | ⟨id, result, own, _, delivered, once, _, reply⟩
  · cases busy
  · exact ⟨past, s, h, id, result, run, inside, own, delivered, once, pc.trans (congrArg _ reply)⟩

/-! ## Waiting -/

namespace Serve

variable {τ : Type} {lib : JsonLibrary} {work : Worker τ}

end Serve

/-- The last event of a stream that comes to this result. -/
def GenResult.terminal (result : GenResult) : StreamingSink.Event :=
  if result.reason = .error ∨ result.reason = .contextOverflow then
    { terminal := true, reason := .error, error := result.error }
  else { terminal := true, reason := result.reason, usage := result.usage }

/-- What is in the sink of a request, or has been: pieces of text, and in the end what the promise says. -/
inductive Said (id : Nat) (past : List Event) : Prop where
  | going (deltas : ∀ ev ∈ StreamingSink.said id past, ev.terminal = false ∧ ev.text ≠ [])
      (unanswered : id ∉ fulfilled past)
  | ended {deltas last} (all : StreamingSink.said id past = deltas ++ [last])
      (texts : ∀ ev ∈ deltas, ev.terminal = false ∧ ev.text ≠ []) (terminal : last.terminal = true)
      (agrees : ∀ result, .setValue id result ∈ past → last = result.terminal)

theorem ofCall_text {sink : SinkRef} {calls : List Event} (texts : ∀ e ∈ calls, e.TextTo sink) :
    ∀ ev ∈ calls.filterMap StreamingSink.Event.ofCall, ev.terminal = false ∧ ev.text ≠ [] := by
  intro ev member
  obtain ⟨e, inside, made⟩ := List.mem_filterMap.mp member
  have text := texts e inside
  cases e with
  | onText target delta =>
    simp only [StreamingSink.Event.ofCall] at made
    split at made
    · cases made
    · rename_i nonempty
      cases made
      exact ⟨rfl, nonempty⟩
  | _ => cases text

theorem ofCall_end {sink : SinkRef} {last : Event} (terminal : last.EndTo sink) :
    ∃ ev, StreamingSink.Event.ofCall last = some ev ∧ ev.terminal = true ∧
      ∀ result : GenResult, last = result.outcome sink → ev = result.terminal := by
  have agree : ∀ (result : GenResult), StreamingSink.Event.ofCall (result.outcome sink) = some result.terminal := by
    intro result
    unfold GenResult.outcome GenResult.terminal
    split <;> rfl
  cases last with
  | onFinish | onError =>
    refine ⟨_, rfl, rfl, fun result same => ?_⟩
    have both := agree result
    rw [← same] at both
    exact Option.some.inj both
  | _ => cases terminal

theorem Spoken.said {r : Request} {past : List Event} (spoken : Spoken r past) (own : r.sink = true) :
    Said r.id past := by
  have sink : r.sinkRef = .supplied r.id := by simp [Request.sinkRef, own]
  cases spoken with
  | going texts unanswered =>
    rw [sink] at texts
    exact .going (ofCall_text texts) unanswered
  | ended all terminal calls agrees =>
    obtain ⟨ev, made, last, same⟩ := ofCall_end terminal
    refine .ended ?_ (ofCall_text all) last fun result delivered => same result (agrees result delivered)
    rw [StreamingSink.said, ← sink, calls, List.filterMap_append]
    simp [made]

namespace Serve

variable {σ : Type} {lib : JsonLibrary} {w : World σ} {config : SchedulerConfig} {capacity : Nat} {world : σ}
variable {past : List Event} {s : Serve (Thread σ)}

/-- Whatever was accepted has been answered by the time the scheduler sleeps. -/
theorem fulfilled_of_asleep (engine : w.OnlyDecodeThrows) (run : (program lib w config capacity world).Run past s)
    (asleep : (Thread.worker w config).step s.server.thread s.server.queue = none) {r : Request}
    (known : r ∈ s.server.accepted) : r.id ∈ fulfilled past := by
  have scheduler := scheduler_run run
  obtain ⟨queue, held⟩ := Thread.rests engine scheduler asleep
  have all := (Thread.accounted engine scheduler).perm
  rw [queue, held] at all
  exact all.mem_iff.mpr (List.mem_map_of_mem known)

end Serve

/-- Whoever is cancelled had a flag raised for it, by its own handler. -/
theorem Serve.excused_of_cancelled {σ : Type} {lib : JsonLibrary} {w : World σ} {config : SchedulerConfig}
    {capacity : Nat} {world : σ} {past : List Event} {s : Serve (Thread σ)}
    (run : (program lib w config capacity world).Run past s) {id : Nat} {result : GenResult}
    (delivered : .setValue id result ∈ past) (cancelled : result.reason = .cancelled) : s.Excused id := by
  have flagged : FlaggedLog s.cancel past := Thread.flagged (heeding_run run)
  exact excused_run run (flagged id result delivered cancelled)

/-- A request ends as cancelled only if its own client was found to be gone or the server was shutting
    down, whatever the other handlers did. -/
theorem cancelled_for_cause {σ : Type} (lib : JsonLibrary) (w : World σ) (config : SchedulerConfig) (capacity : Nat)
    (world : σ) (past : List Event) (s : Serve (Thread σ))
    (run : (Serve.program lib w config capacity world).Run past s) (id : Nat) (result : GenResult)
    (delivered : .setValue id result ∈ past) (cancelled : result.reason = .cancelled) :
    s.shuttingDown = true ∨ ∃ h ∈ s.handlers, h.id = some id ∧ h.gone = true :=
  Serve.excused_of_cancelled run delivered cancelled

/-- A client that is gone before its first token. -/
theorem cancelled_for_cause_letter :
    ∃ past s result,
      (Serve.program .sample { Script.letter.world with cancelled := fun _ _ => true } (.pair 8) 4
        fun _ => none).Run past s ∧
      s.shuttingDown = false ∧ .setValue 1 result ∈ past ∧ result.reason = .cancelled ∧
      ∃ h ∈ s.handlers, h.id = some 1 ∧ h.gone = true := by
  obtain ⟨past, s, run, up, ⟨id, result⟩, listed, rfl, cancelled⟩ : ∃ past s,
      (Serve.program .sample { Script.letter.world with cancelled := fun _ _ => true } (.pair 8) 4
        fun _ => none).Run past s ∧ s.shuttingDown = false ∧
      ∃ d ∈ past.filterMap Event.result?, d.1 = 1 ∧ d.2.reason = .cancelled :=
    Serve.exists_run ([.connect .generate (requestText "a")] ++ List.replicate 3 (.handle 0 .fine) ++
      [.handle 0 (.broken 0)] ++ List.replicate 9 .run) (by decide +kernel)
  have delivered := Event.mem_results.mp listed
  have excused := cancelled_for_cause .sample _ (.pair 8) 4 _ past s run 1 result delivered cancelled
  refine ⟨past, s, result, run, up, delivered, cancelled, excused.resolve_left ?_⟩
  rw [up]
  exact Bool.false_ne_true

/-! ## Admission and the end -/

namespace Serve

variable {σ : Type} {lib : JsonLibrary} {w : World σ} {config : SchedulerConfig} {capacity : Nat} {world : σ}
variable {past : List Event} {s : Serve (Thread σ)}

/-- A closed queue stays closed, and nothing is accepted. -/
theorem accepted_of_closed (run : (program lib w config capacity world).Run past s)
    (closed : s.server.queue.closed = true) {more : List Event} {t : Serve (Thread σ)}
    (rest : ((program lib w config capacity world).startingAt s).Run more t) :
    t.server.accepted = s.server.accepted ∧ t.server.queue.closed = true := by
  induction rest with
  | start initial =>
    cases initial
    exact ⟨rfl, closed⟩
  | @next more u events t earlier step ih =>
    obtain ⟨same, shut⟩ := ih
    have reached := run.andThen earlier
    have taken : (program lib w config capacity world).step u events t := step
    cases step_move taken with
    | @submit i h request =>
      have refused := Server.push_of_closed request shut
      exact ⟨(congrArg Server.accepted refused).trans same, (congrArg (·.queue.closed) refused).trans shut⟩
    | close => exact ⟨same, rfl⟩
    | run stepped => exact ⟨same, (Thread.keeps (scheduler_run reached) stepped).1.trans shut⟩
    | _ => exact ⟨same, shut⟩

/-- Where every handler has returned, it stays so. -/
theorem handlers_of_quiescent (quiet : s.Quiescent) {more : List Event} {t : Serve (Thread σ)}
    (rest : ((program lib w config capacity world).startingAt s).Run more t) :
    t.Quiescent ∧ t.handlers = s.handlers := by
  induction rest with
  | start initial =>
    cases initial
    exact ⟨quiet, rfl⟩
  | next _ step ih =>
    have move := step_move (show (program lib w config capacity world).step _ _ _ from step)
    exact ⟨move.quiescent ih.1, (move.idle ih.1).2.trans ih.2⟩

/-- While the queue is open `listen` has not returned. -/
theorem joins_of_open (run : (program lib w config capacity world).Run past s)
    (open_ : s.server.queue.closed = false) :
    ((program lib w config capacity world).guarded ListenJoins).Run past s := by
  induction run with
  | start initial => exact .start initial
  | @next past s events t earlier step ih =>
    refine .next (ih ?_) ⟨step, fun closed => ?_⟩
    · rw [← Bool.not_eq_true]
      intro closed
      rw [(accepted_of_closed earlier closed (.one step)).2] at open_
      cases open_
    · rw [open_] at closed
      cases closed

end Serve

/-- Provided that `listen` returns when its handlers have, a handler at the queue finds it open, and is turned
    away exactly if as many requests wait as the queue may hold; otherwise its request is the last in the queue,
    under a number of its own. -/
theorem turned_away_iff_full {σ : Type} (lib : JsonLibrary) (w : World σ) (config : SchedulerConfig) (capacity : Nat)
    (world : σ) (past : List Event) (s : Serve (Thread σ))
    (run : ((Serve.program lib w config capacity world).guarded Serve.ListenJoins).Run past s) (i : Nat) (h : Handler)
    (here : s.handlers[i]? = some h) (request : Request) (pc : h.pc = .pushing request) (wire : Wire) :
    s.server.queue.closed = false ∧ s.server.queue.queue.length ≤ capacity ∧
    request.id ∉ requestIds s.server.accepted ∧
    ∃ t h', s.act lib (Thread.worker w config) (.handle i wire) = some ([], t) ∧ t.handlers[i]? = some h' ∧
      if s.server.queue.queue.length = capacity then
        t.server = s.server ∧ h'.pc = .done (.make 503 (makeErrorResponse lib "server at capacity; retry later"))
      else t.server.queue.queue = s.server.queue.queue ++ [request] ∧
        t.server.accepted = s.server.accepted ++ [request] ∧
        (h'.pc = .waiting request.id ∨ h'.pc = .streaming request.id) := by
  obtain ⟨stands, numbered⟩ := Serve.stands_run run.of_guarded
  obtain ⟨size, fits⟩ := Thread.bounded (Serve.scheduler_run run.of_guarded)
  -- a queue that is closed has no handlers left
  have open_ : s.server.queue.closed = false := by
    cases closed : s.server.queue.closed with
    | false => rfl
    | true =>
      have returned := (Serve.quiescent_run run closed).2 h (List.mem_of_getElem? here)
      rw [pc] at returned
      cases returned
  have acted : s.act lib (Thread.worker w config) (.handle i wire) = some ([], s.submit lib i h request) := by
    simp only [Serve.act, here, Serve.handle, pc, Option.map_some]
  refine ⟨open_, fits, numbered.fresh stands here pc, s.submit lib i h request,
    h.pushed lib (s.server.queue.tryPush request).1 request, acted, Serve.put_at here, ?_⟩
  split
  · rename_i full
    have refused : s.server.queue.tryPush request = (false, some request, s.server.queue) :=
      if_pos (.inr (by omega))
    simp [Serve.submit, Serve.put, Server.push, Handler.pushed, refused]
  · rename_i room
    have taken : s.server.queue.tryPush request =
        (true, none, { s.server.queue with queue := s.server.queue.queue ++ [request] }) := by
      refine if_neg ?_
      rw [open_]
      simp only [Bool.false_eq_true, false_or]
      omega
    refine ⟨?_, ?_, ?_⟩
    · simp [Serve.submit, Serve.put, Server.push, taken]
    · simp [Serve.submit, Serve.put, Server.push, taken]
    · simp only [Handler.pushed, taken, if_true]
      cases h.endpoint
      · exact .inl rfl
      · exact .inr rfl

/-- Room for one: the second of two requests is turned away. -/
theorem turned_away_iff_full_letter :
    ∃ past s h t h',
      (Serve.program .sample Script.letter.world (.pair 8) 1 fun _ => none).Run past s ∧
      s.handlers[1]? = some h ∧
      s.act .sample (Thread.worker Script.letter.world (.pair 8)) (.handle 1 .fine) = some ([], t) ∧
      t.handlers[1]? = some h' ∧
      h'.pc = .done (.make 503 (makeErrorResponse .sample "server at capacity; retry later")) := by
  obtain ⟨past, s, run, full, open_, h, here, pc⟩ : ∃ past s,
      (Serve.program .sample Script.letter.world (.pair 8) 1 fun _ => none).Run past s ∧
      s.server.queue.queue.length = 1 ∧ s.server.queue.closed = false ∧ ∃ h ∈ s.handlers[1]?,
        h.pc = .pushing { id := 2, spec := { prompt := bytes "b", maxTokens := 4 } } :=
    Serve.exists_run ([.connect .generate (requestText "a"), .connect .generate (requestText "b")] ++
      List.replicate 3 (.handle 0 .fine) ++ List.replicate 2 (.handle 1 .fine)) (by decide +kernel)
  obtain ⟨_, _, _, t, h', acted, there, outcome⟩ := turned_away_iff_full .sample Script.letter.world (.pair 8) 1 _
    past s (Serve.joins_of_open run open_) 1 h here _ pc .fine
  rw [if_pos full] at outcome
  exact ⟨past, s, h, t, h', run, here, acted, there, outcome.2⟩

/-- Provided that `listen` returns when its handlers have, the scheduler is alone once the queue is closed.
    Whoever has not got a result yet is a stream, given up or at its end; from there on no handler takes a step
    and nothing is accepted, and when the scheduler, behind an engine that throws in `decode` at most, has nothing
    left to do, everything that was ever accepted is fulfilled. -/
theorem closes_last {σ : Type} (lib : JsonLibrary) (w : World σ) (engine : w.OnlyDecodeThrows)
    (config : SchedulerConfig) (capacity : Nat) (world : σ) (past : List Event) (s : Serve (Thread σ))
    (run : ((Serve.program lib w config capacity world).guarded Serve.ListenJoins).Run past s)
    (closed : s.server.queue.closed = true) :
    (∀ r ∈ s.server.accepted, r.id ∉ fulfilled past → r.sink = true) ∧
    ∀ more t, ((Serve.program lib w config capacity world).startingAt s).Run more t →
      t.handlers = s.handlers ∧ t.server.accepted = s.server.accepted ∧
      ((Thread.worker w config).step t.server.thread t.server.queue = none →
        ∀ r ∈ s.server.accepted, r.id ∈ fulfilled (past ++ more)) := by
  have quiet := Serve.quiescent_run run closed
  have run := run.of_guarded
  constructor
  · intro r known unanswered
    obtain ⟨stands, numbered⟩ := Serve.stands_run run
    obtain ⟨h, inside, own, took, kind⟩ := numbered.owned r known
    have returned := quiet.2 h inside
    have at_ := stands h inside
    cases at_ with
    | answered request result _ _ _ kept =>
      have delivered := Serve.delivered_of_promise run kept
      rw [← Option.some.inj own] at unanswered
      exact absurd (mem_fulfilled.mpr ⟨result, delivered⟩) unanswered
    | streamed | choked => exact kind
    | refused | unread | shed => cases took
    | _ => cases returned
  · intro more t rest
    have both := Serve.accepted_of_closed run closed rest
    refine ⟨(Serve.handlers_of_quiescent quiet rest).2, both.1, fun asleep r known => ?_⟩
    exact Serve.fulfilled_of_asleep engine (run.andThen rest) asleep (both.1 ▸ known)

/-- A stream is given up, and the server closes the queue before the scheduler has seen the request. -/
theorem closes_last_letter :
    ∃ past s r,
      ((Serve.program .sample Script.letter.world (.pair 8) 4 fun _ => none).guarded Serve.ListenJoins).Run past s ∧
      s.server.queue.closed = true ∧ r ∈ s.server.accepted ∧ r.id ∉ fulfilled past ∧ r.sink = true := by
  obtain ⟨past, s, run, open_, quiet, r, known, unanswered⟩ : ∃ past s,
      (Serve.program .sample Script.letter.world (.pair 8) 4 fun _ => none).Run past s ∧
      s.server.queue.closed = false ∧ s.Quiescent ∧ ∃ r ∈ s.server.accepted, r.id ∉ fulfilled past :=
    Serve.exists_run ([.connect .stream (requestText "a")] ++ List.replicate 3 (.handle 0 .fine) ++
      [.cut 0, .signal, .stop]) (by decide +kernel)
  have closing := (Serve.joins_of_open run open_).next
    (show ((Serve.program _ _ _ _ _).guarded _).step s [] _ from ⟨⟨.close, rfl⟩, fun _ => .inr quiet⟩)
  rw [List.append_nil] at closing
  have streams := (closes_last .sample Script.letter.world Script.letter.world_onlyDecodeThrows (.pair 8) 4 _ past _
    closing rfl).1
  exact ⟨past, _, r, closing, rfl, known, unanswered, streams r known unanswered⟩

/-! ## What a response says -/

theorem Reply.make_eq_ok {status : Nat} {dumped : Except JsonException Text} {body : Text}
    (said : Reply.make status dumped = .response 200 body) : status = 200 ∧ dumped = .ok body := by
  cases dumped with
  | ok text =>
    cases said
    exact ⟨rfl, rfl⟩
  | error => cases said

/-- A response says 200 if the result is neither a failure nor a refusal, and then its body holds it. -/
theorem respond_eq_ok {lib : JsonLibrary} {result : GenResult} {body : Text}
    (said : respond lib result = .response 200 body) : ¬ result.Failed ∧
      lib.dump (generateJson result.text result.reason result.usage) = .ok body := by
  unfold respond at said
  split at said
  · cases (Reply.make_eq_ok said).1
  · rename_i fits
    split at said
    · cases (Reply.make_eq_ok said).1
    · rename_i works
      exact ⟨not_or.mpr ⟨works, fits⟩, (Reply.make_eq_ok said).2⟩

/-- A response with status 200 is what its client would have got alone.  In continuous mode and without
    prefix caching, with an engine that samples from the tokens of a sequence and a JSON library that reads
    back what it writes, the body parses to a text, a reason and token counts.  If the reason is `cancelled`,
    then the client was found to be gone or the server was shutting down; if it is not, and the prompt of the
    request has a token, they are what the generator, if it returns, produces for the request of the body on a
    fresh engine that tokenizes, spells and samples alike. -/
theorem response_as_alone {σ τ : Type} (lib : JsonLibrary) (lawful : lib.Lawful) (w : World σ) (samples : Samples w)
    (config : SchedulerConfig) (mode : config.mode = .continuous) (off : config.prefixCaching = false)
    (capacity : Nat) (world : σ) (past : List Event) (s : Serve (Thread σ))
    (run : (Serve.program lib w config capacity world).Run past s) (h : Handler)
    (inside : h ∈ s.handlers) (endpoint : h.endpoint = .generate) (body : Text)
    (done : h.pc = .done (.response 200 body)) (v : World τ) (twin : Samples v) (alike : samples.Twin twin)
    (silent : v.NeverCancels) (seq : Nat) (sink : SinkRef) (port : Port τ) :
    ∃ spec text reason usage, parseGenerateRequest lib.parse h.body = .ok spec ∧
      lib.parse body = .ok (generateJson text reason usage) ∧
      (reason = .cancelled → s.shuttingDown = true ∨ h.gone = true) ∧
      (reason ≠ .cancelled → w.tokenize spec.prompt true ≠ [] →
        ∀ port', generateOne v seq spec sink port = some (.ok (), port') →
        streamed sink port'.log = streamed sink port.log ++ text ∧
        ∃ calls told, port'.log = calls ++ [.onFinish sink reason told] ∧
          told.promptTokens = usage.promptTokens ∧ told.completionTokens = usage.completionTokens) := by
  obtain ⟨stands, numbered⟩ := Serve.stands_run run
  have at_ := stands h inside
  generalize replied : Reply.response 200 body = reply at done
  cases at_ with
  | answered request result read known buffered kept =>
    cases done
    obtain ⟨unfailed, dumped⟩ := respond_eq_ok replied.symm
    have delivered := Serve.delivered_of_promise run kept
    refine ⟨request.spec, result.text, result.reason, result.usage, read,
      lawful.reads _ _ (plain_generate _ _ _) dumped, fun cancelled => ?_, fun uncancelled prompted port' ran => ?_⟩
    · rcases Serve.excused_of_cancelled run delivered cancelled with down | ⟨h', there, own, gone⟩
      · exact .inl down
      · rw [numbered.unique there inside own rfl] at gone
        exact .inr gone
    · -- the run of the scheduler inside
      have scheduler := Serve.scheduler_run run
      rcases Thread.run_mode scheduler.guarded_true with ⟨other, _⟩ | ⟨_, t, same, moded⟩
      · rw [mode] at other
        cases other
      · have accepted : s.server.accepted = t.accepted := congrArg Server.accepted same
        rw [accepted] at known
        obtain ⟨r, member, own, alone⟩ := Server.alone_run samples.tracker off samples.honest moded.of_guarded
          request.id result delivered unfailed fun cancelled => absurd cancelled uncancelled
        have nodup := (Server.counts_run moded.of_guarded).nodup
        rw [eq_of_id nodup member known own] at alone
        obtain ⟨final, concludes, text, reason, prompt, completion⟩ := alone prompted
        obtain ⟨final', concludes', sent, calls, usage, log, counted, generated, _⟩ :=
          @generateOne_told _ _ twin _ _ _ _ _ (silent sink) ran
        cases concludes.det (samples.determines request.spec) (alike.concludes concludes')
        rw [text, reason, prompt, completion]
        exact ⟨sent, calls, usage, log, counted, generated⟩
  | refused | shed =>
    cases done
    cases (Reply.make_eq_ok replied.symm).1
  | unread | streamed | choked =>
    cases done
    cases replied
  | _ => cases done

/-- Two clients in a pool too small for both requests: the second is preempted, and still gets the four
    letters that it would get alone. -/
theorem response_as_alone_letter :
    ∃ past s h port',
      (Serve.program .sample Script.letter.world (.pair 8) 4 fun _ => none).Run past s ∧
      h ∈ s.handlers ∧ Event.preempt 2 1 0 4 ∈ past ∧
      h.pc = .done (.response 200 responseText) ∧
      generateOne Script.letter.world 0 { prompt := bytes "a", maxTokens := 4 } (.collecting 7)
        { world := fun _ => none } = some (.ok (), port') ∧ streamed (.collecting 7) port'.log = bytes "aaaa" := by
  obtain ⟨past, s, run, preempted, h, inside, endpoint, body, up, pc⟩ : ∃ past s,
      (Serve.program .sample Script.letter.world (.pair 8) 4 fun _ => none).Run past s ∧
      Event.preempt 2 1 0 4 ∈ past ∧
      ∃ h ∈ s.handlers, h.endpoint = .generate ∧ h.body = requestText "a" ∧
        (s.shuttingDown = false ∧ h.gone = false) ∧
        h.pc = .done (.response 200 responseText) :=
    Serve.exists_run ([.connect .stream (requestText "a"), .connect .generate (requestText "a")] ++
      List.replicate 3 (.handle 0 .fine) ++ List.replicate 3 (.handle 1 .fine) ++ List.replicate 115 .run ++
      [.handle 1 .fine]) (by decide +kernel)
  obtain ⟨spec, text, reason, usage, read, answer, cancelled, alone⟩ := response_as_alone .sample
    JsonLibrary.sample_lawful Script.letter.world Script.letter.samples (.pair 8) rfl rfl 4 _ past s run h
    inside endpoint _ pc Script.letter.world Script.letter.samples ⟨rfl, rfl, rfl⟩ Script.letter.world_neverCancels 0
    (.collecting 7) { world := fun _ => none }
  rw [body, JsonLibrary.sample_request] at read
  cases read
  rw [JsonLibrary.sample_response] at answer
  have same : text = bytes "aaaa" := by
    simp only [generateJson, Except.ok.injEq, Json.object.injEq, List.cons.injEq, Prod.mk.injEq, Json.string.injEq,
      true_and] at answer
    exact answer.2.1.symm
  obtain ⟨port', ran⟩ := generateOne_returns Script.letter_neverThrows Script.letter.world_answers 0
    { prompt := bytes "a", maxTokens := 4 } (.collecting 7) { world := fun _ => none }
  have uncancelled : reason ≠ .cancelled := by
    intro why
    rcases cancelled why with down | gone
    · rw [up.1] at down
      cases down
    · rw [up.2] at gone
      cases gone
  obtain ⟨sent, _⟩ := alone uncancelled (by decide) port' ran
  exact ⟨past, s, h, port', run, inside, preempted, pc, ran, sent.trans same⟩

end MicroVllm
