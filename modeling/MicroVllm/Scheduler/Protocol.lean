import MicroVllm.Scheduler.Service

/-! # The sink protocol

A request's sink hears text and then, once, how the request ended.  While the request waits,
also after a preemption, its sink has heard text only; while it is in service the state of
its sequence says whether the last call has been made; and the promise is fulfilled after that
call, with the same outcome.
-/

namespace MicroVllm

/-- The last call of a sink whose request was delivered with this result. -/
def GenResult.outcome (result : GenResult) (sink : SinkRef) : Event :=
  if result.reason = .error ∨ result.reason = .contextOverflow then .onError sink result.error
  else .onFinish sink result.reason result.usage

theorem Job.result_outcome (job : Job) : job.result.outcome job.state.sink = job.state.outcome := by
  unfold GenResult.outcome SequenceState.outcome Job.result
  by_cases failed : job.state.reason = .error ∨ job.state.reason = .contextOverflow
  · simp only [if_pos failed]
  · simp only [if_neg failed]

namespace SequenceState

variable {σ : Type} {w : World σ} {O : SequenceState → Prop} {s t : SequenceState}
variable {past calls : List Event}

/-- What a sink has heard, `calls`, against the state of the sequence that writes to it. -/
structure Told (calls : List Event) (s : SequenceState) : Prop where
  before : s.notified = false → ∀ e ∈ calls, e.TextTo s.sink
  after : s.notified = true →
    ∃ texts, (∀ e ∈ texts, e.TextTo s.sink) ∧ calls = texts ++ [s.outcome]
  ended : s.notified = true → s.finished = true
  reasoned : s.finished = true → s.reason ≠ .unset

theorem Told.unnotified (told : s.Told past) (unfinished : s.finished = false) : s.notified = false := by
  by_contra notified
  rw [told.ended (by simpa using notified)] at unfinished
  cases unfinished

/-- A state in which only text has been sent. -/
theorem Told.of_texts (notified : s.notified = false) (texts : ∀ e ∈ past, e.TextTo s.sink)
    (reasoned : s.finished = true → s.reason ≠ .unset) : s.Told past where
  before _ := texts
  after done := by simp [notified] at done
  ended done := by simp [notified] at done
  reasoned := reasoned

theorem outcome_closed (s : SequenceState) : s.closed.outcome = s.outcome := by
  unfold closed
  split
  · rfl
  · split <;> rfl

theorem Told.close (told : s.Told past) (finished : s.finished = true) (closing : s.Closing calls) :
    s.closed.Told (past ++ calls) := by
  have sink := (closed_same s).sink
  unfold Closing at closing
  by_cases notified : s.notified = true
  · -- the sink has been told before
    rw [if_pos notified] at closing
    rw [closing, List.append_nil, closed_of_notified notified]
    exact told
  · rw [if_neg notified] at closing
    obtain ⟨texts, all, rfl⟩ := closing
    constructor
    · intro open'
      simp [closed_notified] at open'
    · intro _
      refine ⟨past ++ texts, ?_, ?_⟩
      · rw [sink]
        intro e member
        rcases List.mem_append.mp member with old | new
        · exact told.before (by simpa using notified) e old
        · exact all e new
      · rw [outcome_closed, List.append_assoc]
    · intro _
      rw [closed, if_neg notified]
      split <;> rfl
    · intro _
      rw [closed_reason]
      exact told.reasoned finished

theorem Told.work (told : s.Told past) (work : Work w O s calls t) : t.Told (past ++ calls) := by
  cases work with
  | chunk unfinished | adopt unfinished =>
    rw [List.append_nil]
    refine .of_texts (told.unnotified unfinished) (told.before (told.unnotified unfinished)) ?_
    exact told.reasoned
  | fail unfinished | overflow unfinished =>
    rw [List.append_nil]
    refine .of_texts (told.unnotified unfinished) (told.before (told.unnotified unfinished)) ?_
    exact fun _ => by simp [fail, stopWith]
  | accept accepts texts heard =>
    by_cases finished : s.finished = true
    · -- nothing is accepted any more
      cases accepts with
      | done =>
        rw [heard finished, List.append_nil]
        exact told
      | eos unfinished | budget unfinished | stop unfinished | cancelled unfinished
      | goesOn unfinished => simp [finished] at unfinished
    · have unnotified := told.unnotified (by simpa using finished)
      have all : ∀ e ∈ past ++ calls, e.TextTo s.sink := by
        intro e member
        rcases List.mem_append.mp member with old | new
        · exact told.before unnotified e old
        · exact texts e new
      cases accepts with
      | done done => exact absurd done finished
      | eos | budget | stop | cancelled =>
        refine .of_texts unnotified all fun _ => ?_
        simp [stopWith]
      | goesOn unfinished =>
        refine .of_texts unnotified all fun done => ?_
        exact absurd done finished
  | close finished closing => exact told.close finished closing

theorem Told.works (told : s.Told past) (works : Works w O s calls t) : t.Told (past ++ calls) :=
  works.invariant told fun _ _ _ _ told work => told.work work

end SequenceState

/-! ## Along a run -/

/-- What the sinks of all accepted requests have heard. -/
structure Heard {σ : Type} (w : World σ) (accepted waiting : List Request) (roster : List Job)
    (past : List Event) : Prop where
  known : ∀ sink, callsTo sink past ≠ [] → ∃ r ∈ accepted, r.sinkRef = sink
  waiting : ∀ r ∈ waiting, r ∈ accepted ∧ ∀ e ∈ callsTo r.sinkRef past, e.TextTo r.sinkRef
  roster : ∀ job ∈ roster, job.request ∈ accepted ∧ job.Origin w ∧
    job.state.Told (callsTo job.state.sink past)
  settled : ∀ before id result after, past = before ++ .setValue id result :: after →
    ∃ r ∈ accepted, r.id = id ∧ result.reason ≠ .unset ∧
      (∃ texts, (∀ e ∈ texts, e.TextTo r.sinkRef) ∧
        callsTo r.sinkRef before = texts ++ [result.outcome r.sinkRef]) ∧
      callsTo r.sinkRef after = []

namespace Heard

variable {σ : Type} {w : World σ} {O : SequenceState → Prop} {accepted waiting waiting' : List Request}
variable {roster roster' : List Job} {past log : List Event}

theorem start : Heard w [] [] [] [] where
  known sink heard := absurd rfl heard
  waiting r member := by cases member
  roster job member := by cases member
  settled before id result after split := by simp at split

/-- Only the sink of a request in service hears anything. -/
theorem silent (heard : Heard w accepted waiting roster past)
    (strangers : ∀ sink, callsTo sink log ≠ [] → ∃ job ∈ roster, job.state.sink = sink) {r : Request}
    (outside : r.id ∉ owners roster) : callsTo r.sinkRef log = [] := by
  by_contra spoken
  obtain ⟨job, inside, same⟩ := strangers _ spoken
  obtain ⟨_, origin, _⟩ := heard.roster job inside
  apply outside
  have sink : job.state.sink = job.request.sinkRef := origin.sink
  rw [← Request.id_of_sinkRef (sink.symm.trans same)]
  exact List.mem_map_of_mem inside

/-- A new job has been told nothing. -/
theorem told_newJob (request : Request) (slot : Nat)
    (texts : ∀ e ∈ callsTo request.sinkRef past, e.TextTo request.sinkRef) :
    (Scheduler.newJob w request slot).state.Told (callsTo request.sinkRef past) := by
  have sink : (Scheduler.newJob w request slot).state.sink = request.sinkRef :=
    (origin_newJob w request slot).sink
  refine .of_texts ?_ (by rw [sink]; exact texts) ?_
  · simp only [Scheduler.newJob, Scheduler.checkContext]
    split <;> rfl
  · simp only [Scheduler.newJob, Scheduler.checkContext]
    split
    · exact fun _ => by simp [SequenceState.fail, SequenceState.stopWith]
    · exact fun finished => by cases finished

/-- A request is delivered after the last call of its sink, and with that outcome. -/
theorem delivered (heard : Heard w accepted waiting roster past) (results : Settles w roster log)
    {before after : List Event} {id : Nat} {result : GenResult}
    (here : log = before ++ .setValue id result :: after) :
    ∃ r ∈ accepted, r.id = id ∧ result.reason ≠ .unset ∧
      (∃ texts, (∀ e ∈ texts, e.TextTo r.sinkRef) ∧
        callsTo r.sinkRef (past ++ before) = texts ++ [result.outcome r.sinkRef]) ∧
      callsTo r.sinkRef after = [] := by
  cases results with
  | nothing none => simp [here, Event.result?] at none
  | @result job state front inside works notified last only =>
    -- the result is the last thing logged
    have ends : after = [] := by
      rcases List.eq_nil_or_concat after with empty | ⟨rest, e, rfl⟩
      · exact empty
      · have longer : (before ++ .setValue id result :: rest) ++ [e] =
            front ++ [.setValue job.request.id { job with state := state }.result] := by
          rw [← last, here]
          simp
        obtain ⟨same, _⟩ := List.append_inj' longer rfl
        simp [← same, Event.result?] at only
    subst ends
    obtain ⟨rfl, same⟩ := List.append_inj' (here.symm.trans last) rfl
    cases same
    obtain ⟨known, origin, told⟩ := heard.roster job inside
    have sink : job.state.sink = job.request.sinkRef := origin.sink
    have final := told.works works
    have unheard : callsTo job.state.sink log = callsTo job.state.sink before := by
      rw [here, callsTo_append]
      exact List.append_nil _
    obtain ⟨texts, all, calls⟩ := final.after notified
    refine ⟨job.request, known, rfl, final.reasoned (final.ended notified), ⟨texts, ?_, ?_⟩, rfl⟩
    · rw [← sink, ← works.same.sink]
      exact all
    · have outcome := Job.result_outcome { job with state := state }
      rw [works.same.sink] at outcome
      rw [← sink, outcome, callsTo_append, ← unheard]
      exact calls

theorem step (heard : Heard w accepted waiting roster past)
    (handles : Handles w O waiting waiting' roster roster' log)
    (once : (requestIds waiting ++ owners roster ++ fulfilled past).Nodup) :
    Heard w accepted waiting' roster' (past ++ log) := by
  have apart : ∀ id ∈ owners roster, id ∉ requestIds waiting ∧ id ∉ fulfilled past := by
    intro id inside
    rw [List.nodup_append, List.nodup_append] at once
    refine ⟨fun waits => once.1.2.2 id waits id inside rfl, fun done => ?_⟩
    exact once.2.2 id (List.mem_append_right _ inside) id done rfl
  have unspoken : ∀ r ∈ waiting, callsTo r.sinkRef log = [] := by
    intro r member
    apply heard.silent handles.strangers
    exact fun inside => (apart r.id inside).1 (List.mem_map_of_mem member)
  constructor
  · intro sink spoken
    rw [callsTo_append] at spoken
    by_cases before : callsTo sink past = []
    · rw [before, List.nil_append] at spoken
      obtain ⟨job, inside, same⟩ := handles.strangers sink spoken
      obtain ⟨known, origin, _⟩ := heard.roster job inside
      exact ⟨job.request, known, origin.sink.symm.trans same⟩
    · exact heard.known sink before
  · intro r member
    rcases handles.waits r member with old | ⟨job, inside, rfl, unfinished, quiet⟩
    · rw [callsTo_append, unspoken r old, List.append_nil]
      exact heard.waiting r old
    · -- a request that waits again was in service and has not finished
      obtain ⟨known, origin, told⟩ := heard.roster job inside
      have sink : job.state.sink = job.request.sinkRef := origin.sink
      rw [← sink, callsTo_append, quiet, List.append_nil]
      exact ⟨known, told.before (told.unnotified unfinished)⟩
  · intro job' member
    cases handles.jobs job' member with
    | @goesOn job inside request works =>
      obtain ⟨known, origin, told⟩ := heard.roster job inside
      refine ⟨request ▸ known, origin.of_same ⟨request, works.same⟩, ?_⟩
      rw [works.same.sink, callsTo_append]
      exact told.works works
    | @taken slot inside works quiet =>
      obtain ⟨known, texts⟩ := heard.waiting _ inside
      have origin : job'.Origin w := (origin_newJob w job'.request slot).of_same ⟨rfl, works.same⟩
      have sink : job'.state.sink = job'.request.sinkRef := origin.sink
      refine ⟨known, origin, ?_⟩
      have told := (told_newJob (w := w) job'.request slot texts).works works
      rw [callsTo_append, quiet, sink]
      exact told
  · intro before id result after split
    rcases List.append_eq_append_iff.mp split with ⟨more, rfl, here⟩ | ⟨more, here, rest⟩
    · exact heard.delivered handles.results here
    · cases more with
      | nil =>
        rw [List.append_nil] at here
        have now := heard.delivered handles.results (show log = [] ++ _ from rest.symm)
        rwa [List.append_nil, here] at now
      | cons e more =>
        obtain ⟨rfl, later⟩ := List.cons.inj rest
        obtain ⟨r, known, rfl, reason, texts, quiet⟩ := heard.settled before id result more here
        refine ⟨r, known, rfl, reason, texts, ?_⟩
        -- a delivered request is no longer in service
        have done : r.id ∈ fulfilled past := by simp [here, fulfilled, Event.fulfils]
        rw [show after = more ++ log from later, callsTo_append, quiet, List.nil_append]
        exact heard.silent handles.strangers fun inside => (apart r.id inside).2 done

/-- A request that has just been accepted waits, and its sink has heard nothing. -/
theorem push (heard : Heard w accepted waiting roster past) {request : Request}
    (fresh : request.id ∉ accepted.map Request.id) :
    Heard w (accepted ++ [request]) (waiting ++ [request]) roster past where
  known sink spoken := by
    obtain ⟨r, member, same⟩ := heard.known sink spoken
    exact ⟨r, List.mem_append_left _ member, same⟩
  waiting r member := by
    rcases List.mem_append.mp member with old | new
    · obtain ⟨known, texts⟩ := heard.waiting r old
      exact ⟨List.mem_append_left _ known, texts⟩
    · cases List.mem_singleton.mp new
      refine ⟨by simp, ?_⟩
      have nothing : callsTo request.sinkRef past = [] := by
        by_contra spoken
        obtain ⟨r, member, same⟩ := heard.known _ spoken
        exact fresh (List.mem_map.mpr ⟨r, member, Request.id_of_sinkRef same⟩)
      simp [nothing]
  roster job member := by
    obtain ⟨known, rest⟩ := heard.roster job member
    exact ⟨List.mem_append_left _ known, rest⟩
  settled before id result after split := by
    obtain ⟨r, known, rest⟩ := heard.settled before id result after split
    exact ⟨r, List.mem_append_left _ known, rest⟩

/-- The order of those that wait does not matter. -/
theorem congr (heard : Heard w accepted waiting roster past) (same : ∀ r ∈ waiting', r ∈ waiting) :
    Heard w accepted waiting' roster past :=
  ⟨heard.known, fun r member => heard.waiting r (same r member), heard.roster, heard.settled⟩

end Heard

namespace Server

variable {σ : Type} {w : World σ} {config : SchedulerConfig} {capacity : Nat} {world : σ}
variable {past : List Event}

theorem heard_push {τ : Type} {s : Server τ} {waiting : List Request} {roster : List Job} {request : Request}
    (fresh : request.id ∉ s.accepted.map Request.id)
    (heard : Heard w s.accepted (s.queue.queue ++ waiting) roster past) :
    Heard w (s.push request).accepted ((s.push request).queue.queue ++ waiting) roster past := by
  simp only [push, RequestQueue.tryPush]
  split
  · exact heard
  · apply (heard.push fresh).congr
    intro r member
    simp only [List.mem_append] at member ⊢
    tauto

theorem crew_once {s : Server (Continuous σ)} (run : (continuous w config capacity world).Run past s) :
    (requestIds (s.queue.queue ++ s.thread.pending) ++ owners s.thread.crew ++ fulfilled past).Nodup := by
  refine (List.Perm.nodup_iff ?_).mp (once_run run)
  simp only [Continuous.held, Continuous.crew, requestIds_append, owners_append, List.append_assoc]
  apply List.Perm.append_left
  apply List.Perm.append_left
  exact List.perm_append_comm_assoc _ _ _

theorem handles_move {s : Server (Continuous σ)} {thread : Continuous σ} {queue : RequestQueue}
    (run : (continuous w config capacity world).Run past s)
    (move : Continuous.Move w (config.construct w.caps) s.thread s.queue thread queue) :
    Handles w s.thread.Outgrows (s.queue.queue ++ s.thread.pending) (queue.queue ++ thread.pending)
      s.thread.crew thread.crew thread.port.log := by
  have settled := settled_run run
  apply move.handles settled.layout (orderly_run run) settled.silent
  exact (List.nodup_append.mp (List.nodup_append.mp (crew_once run)).1).2.1

theorem heard_run {s : Server (Continuous σ)} (run : (continuous w config capacity world).Run past s) :
    Heard w s.accepted (s.queue.queue ++ s.thread.pending) s.thread.crew past := by
  refine continuous_invariant ?_ ?_ ?_ ?_ run.guarded_true
  · exact .start
  · exact fun _ _ _ fresh heard => heard_push fresh heard
  · exact fun _ _ heard => heard
  · intro past s thread queue earlier _ heard move _
    exact heard.step (handles_move earlier.of_guarded move) (crew_once earlier.of_guarded)

theorem roster_once {s : Server (Static σ)} (run : (static w config capacity world).Run past s) :
    (requestIds (s.queue.queue ++ s.thread.waiting) ++ owners s.thread.roster ++ fulfilled past).Nodup := by
  have once := (static_counts_run run).once
  rw [Static.held_eq] at once
  refine (List.Perm.nodup_iff ?_).mp once
  simp only [requestIds_append, List.append_assoc]
  apply List.Perm.append_left
  exact List.perm_append_comm_assoc _ _ _

theorem roster_distinct {s : Server (Static σ)} (run : (static w config capacity world).Run past s)
    (heard : Heard w s.accepted (s.queue.queue ++ s.thread.waiting) s.thread.roster past) :
    Distinct s.thread.roster :=
  distinct_of_owners (fun job member => (heard.roster job member).2.1)
    (List.nodup_append.mp (List.nodup_append.mp (roster_once run)).1).2.1

theorem static_heard_run {s : Server (Static σ)} (run : (static w config capacity world).Run past s) :
    s.thread.Over ∧ Heard w s.accepted (s.queue.queue ++ s.thread.waiting) s.thread.roster past := by
  refine static_invariant ?_ ?_ ?_ ?_ run.guarded_true
  · exact ⟨.of_pc (by simp [Static.start]), .start⟩
  · rintro past s request fresh ⟨isOver, heard⟩
    exact ⟨isOver, heard_push fresh heard⟩
  · exact fun _ _ both => both
  · rintro past s thread queue earlier settled ⟨isOver, heard⟩ move _
    have distinct := roster_distinct earlier.of_guarded heard
    have after := isOver.move move
    have handles := move.handles isOver settled.silent distinct
    exact ⟨fun i pc => after i pc, heard.step handles (roster_once earlier.of_guarded)⟩

theorem static_handles_move {s : Server (Static σ)} {thread : Static σ} {queue : RequestQueue}
    (run : (static w config capacity world).Run past s)
    (move : Static.Move w (config.construct w.caps) s.thread s.queue thread queue) :
    Handles w (fun _ => True) (s.queue.queue ++ s.thread.waiting) (queue.queue ++ thread.waiting)
      s.thread.roster thread.roster thread.port.log := by
  obtain ⟨isOver, heard⟩ := static_heard_run run
  exact move.handles isOver (settledStatic_run run).silent (roster_distinct run heard)

end Server

/-- In either mode and with any engine, sinks and clients: when the promise of a request is
    fulfilled its sink has heard text and then one last call, `on_error` if the result says `error`
    or `contextOverflow` and otherwise `on_finish` with the reason and usage of the result, which
    is never `unset`; and it hears nothing afterwards. -/
theorem sink_protocol {σ : Type} (w : World σ) (config : SchedulerConfig) (capacity : Nat) (world : σ)
    (past : List Event) (accepted : List Request)
    (run : (∃ s, (Server.continuous w config capacity world).Run past s ∧ s.accepted = accepted) ∨
      ∃ s, (Server.static w config capacity world).Run past s ∧ s.accepted = accepted)
    (before : List Event) (id : Nat) (result : GenResult) (after : List Event)
    (delivered : past = before ++ .setValue id result :: after) :
    ∃ request ∈ accepted, request.id = id ∧ result.reason ≠ .unset ∧
      (∃ texts, (∀ e ∈ texts, ∃ delta, e = .onText request.sinkRef delta) ∧
        callsTo request.sinkRef before = texts ++
          [if result.reason = .error ∨ result.reason = .contextOverflow then
            .onError request.sinkRef result.error
          else .onFinish request.sinkRef result.reason result.usage]) ∧
      callsTo request.sinkRef after = [] := by
  have settled : ∃ r ∈ accepted, r.id = id ∧ result.reason ≠ .unset ∧
      (∃ texts, (∀ e ∈ texts, e.TextTo r.sinkRef) ∧
        callsTo r.sinkRef before = texts ++ [result.outcome r.sinkRef]) ∧
      callsTo r.sinkRef after = [] := by
    rcases run with ⟨s, run, rfl⟩ | ⟨s, run, rfl⟩
    · exact (Server.heard_run run).settled before id result after delivered
    · exact (Server.static_heard_run run).2.settled before id result after delivered
  obtain ⟨request, known, named, reason, ⟨texts, all, calls⟩, quiet⟩ := settled
  refine ⟨request, known, named, reason, ⟨texts, fun e member => ?_, calls⟩, quiet⟩
  have text := all e member
  cases e with
  | onText sink delta => exact ⟨delta, by rw [show sink = request.sinkRef from text]⟩
  | _ => cases text

/-- A request that is preempted after it has sent text, runs again and is then delivered. -/
theorem sink_protocol_letter :
    ∃ past s, (Server.continuous Script.letter.world (.pair 8) 4 fun _ => none).Run past s ∧
      ∃ before result after, past = before ++ .setValue 1 result :: after ∧
        .preempt 1 1 0 4 ∈ past ∧ result.reason = .maxTokens ∧
        (∃ texts, callsTo (.supplied 1) before = texts ++ [.onFinish (.supplied 1) .maxTokens result.usage]) ∧
        callsTo (.supplied 1) after = [] := by
  obtain ⟨past, s, run, accepted, evicted, ⟨id, result⟩, delivered, rfl, reason⟩ : ∃ past s,
      (Server.continuous Script.letter.world (.pair 8) 4 fun _ => none).Run past s ∧
      (s.accepted = [{ id := 0, spec := { prompt := [1], maxTokens := 4 }, sink := true },
        { id := 1, spec := { prompt := [1], maxTokens := 4 }, sink := true }] ∧
        .preempt 1 1 0 4 ∈ past ∧
        ∃ d ∈ past.filterMap Event.result?, d.1 = 1 ∧ d.2.reason = .maxTokens) :=
    Server.exists_run ([.push { id := 0, spec := { prompt := [1], maxTokens := 4 }, sink := true },
      .push { id := 1, spec := { prompt := [1], maxTokens := 4 }, sink := true }] ++
      List.replicate 115 .run) rfl rfl (by decide +kernel)
  obtain ⟨before, after, split⟩ := List.append_of_mem (Event.mem_results.mp delivered)
  obtain ⟨request, known, named, _, ⟨texts, _, calls⟩, quiet⟩ :=
    sink_protocol _ _ _ _ past _ (.inl ⟨s, run, rfl⟩) before 1 result after split
  have sink : request.sinkRef = .supplied 1 := by
    rw [accepted] at known
    simp only [List.mem_cons, List.not_mem_nil, or_false] at known
    rcases known with rfl | rfl
    · cases named
    · rfl
  rw [sink, reason] at calls
  rw [sink] at quiet
  exact ⟨past, s, run, before, result, after, split, evicted, reason, ⟨texts, calls⟩, quiet⟩

end MicroVllm
