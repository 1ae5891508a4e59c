import MicroVllm.Scheduler.Seats
import MicroVllm.Scheduler.Streams
import MicroVllm.Works

/-! # Requests in service

Both loops seen from the requests: those that wait, those whose jobs are in service, and what a
move does to each.  A job in service goes on by the work of its sequence, and its sink hears
exactly the calls of that work; a new one is taken from those that wait; one that waits again
has not finished and hears nothing; and a result is the last thing a move logs.
-/

namespace MicroVllm

/-- The sink a request's sequence writes to. -/
def Request.sinkRef (request : Request) : SinkRef :=
  if request.sink then .supplied request.id else .collecting request.id

theorem Request.id_of_sinkRef {a b : Request} (same : a.sinkRef = b.sinkRef) : a.id = b.id := by
  unfold sinkRef at same
  split at same <;> split at same <;> simp_all

/-- What no sink and no client hears of. -/
def Event.Unheard : Event → Prop
  | .onText .. | .onFinish .. | .onError .. | .setValue .. => False
  | _ => True

theorem Event.Eviction.unheard {e : Event} (eviction : e.Eviction) : e.Unheard := by
  cases e with
  | stat stat => trivial
  | releaseSequence seq => trivial
  | _ => cases eviction

theorem Event.Unheard.callTo {e : Event} (unheard : e.Unheard) (sink : SinkRef) :
    e.callTo sink = none := by
  cases e <;> first | rfl | cases unheard

theorem Event.Unheard.result? {e : Event} (unheard : e.Unheard) : e.result? = none := by
  cases e <;> first | rfl | cases unheard

section Unheard

variable {σ : Type} {w : World σ} {port port' : Port σ}

theorem Port.Adds.callsTo_eq_nil (adds : port.Adds Event.Unheard port') (silent : port.log = [])
    (sink : SinkRef) : callsTo sink port'.log = [] := by
  rw [callsTo, adds.filterMap_eq fun _ unheard => unheard.callTo sink, silent]
  rfl

theorem Port.Adds.results_eq_nil (adds : port.Adds Event.Unheard port') (silent : port.log = []) :
    port'.log.filterMap Event.result? = [] := by
  rw [adds.filterMap_eq fun _ unheard => unheard.result?, silent]
  rfl

theorem Port.Adds.decoded {items : List BatchItem} {result : Except String (List GenStep)}
    (decoded : port.decode w items = (result, port')) : port.Adds Event.Unheard port' :=
  .one (Port.log_decode decoded) trivial

end Unheard

/-- What a move that logs `log` has done to a job that is in service after it. -/
inductive Handled {σ : Type} (w : World σ) (O : SequenceState → Prop) (waiting : List Request)
    (roster : List Job) (log : List Event) (job' : Job) : Prop where
  | goesOn {job} (member : job ∈ roster) (request : job'.request = job.request)
      (works : job.state.Works w O (callsTo job.state.sink log) job'.state)
  | taken {slot} (member : job'.request ∈ waiting)
      (works : (Scheduler.newJob w job'.request slot).state.Works w O [] job'.state)
      (silent : callsTo job'.state.sink log = [])

/-- What a move can deliver: nothing, or the result of one job whose sink it has notified. -/
inductive Settles {σ : Type} (w : World σ) (roster : List Job) (log : List Event) : Prop where
  | nothing (none : log.filterMap Event.result? = [])
  | result {job state before} (member : job ∈ roster)
      (works : job.state.Works w (fun _ => True) (callsTo job.state.sink log) state)
      (notified : state.notified = true)
      (last : log = before ++ [.setValue job.request.id { job with state := state }.result])
      (only : before.filterMap Event.result? = [])

structure Handles {σ : Type} (w : World σ) (O : SequenceState → Prop) (waiting waiting' : List Request)
    (roster roster' : List Job) (log : List Event) : Prop where
  jobs : ∀ job' ∈ roster', Handled w O waiting roster log job'
  waits : ∀ r ∈ waiting', r ∈ waiting ∨ ∃ job ∈ roster, job.request = r ∧
    job.state.finished = false ∧ callsTo job.state.sink log = []
  results : Settles w roster log
  strangers : ∀ sink, callsTo sink log ≠ [] → ∃ job ∈ roster, job.state.sink = sink

/-- A job of the roster after work that no sink hears of. -/
def GoesOn {σ : Type} (w : World σ) (O : SequenceState → Prop) (roster : List Job) (job' : Job) : Prop :=
  ∃ job ∈ roster, job'.request = job.request ∧ job.state.Works w O [] job'.state

section Handles

variable {σ : Type} {w : World σ} {O : SequenceState → Prop} {waiting waiting' : List Request}
variable {roster roster' : List Job} {log : List Event}

theorem GoesOn.refl {job : Job} (member : job ∈ roster) : GoesOn w O roster job :=
  ⟨job, member, rfl, .refl⟩

theorem GoesOn.sink {job : Job} (goesOn : GoesOn w O roster job) :
    ∃ old ∈ roster, job.state.sink = old.state.sink := by
  obtain ⟨old, inside, _, works⟩ := goesOn
  exact ⟨old, inside, works.same.sink⟩

/-- A job that a failing step ends, unless it has finished. -/
theorem GoesOn.fail {job : Job} (goesOn : GoesOn w O roster job) (message : String) :
    GoesOn w O roster (if job.state.finished then job else { job with state := job.state.fail message }) := by
  obtain ⟨old, inside, request, works⟩ := goesOn
  refine ⟨old, inside, ?_⟩
  split
  · exact ⟨request, works⟩
  · rename_i unfinished
    exact ⟨request, works.tail (.fail (by simpa using unfinished))⟩

/-- A move that no sink and no client hears of. -/
theorem Handles.quiet {port port' : Port σ} (silent : port.log = []) (adds : port.Adds Event.Unheard port')
    (waits : ∀ r ∈ waiting', r ∈ waiting ∨ ∃ job ∈ roster, job.request = r ∧ job.state.finished = false)
    (jobs : ∀ job' ∈ roster', GoesOn w O roster job' ∨ ∃ slot, job'.request ∈ waiting ∧
        (Scheduler.newJob w job'.request slot).state.Works w O [] job'.state) :
    Handles w O waiting waiting' roster roster' port'.log where
  jobs job' member := by
    rcases jobs job' member with ⟨job, old, request, works⟩ | ⟨slot, waited, works⟩
    · exact .goesOn old request (by rw [adds.callsTo_eq_nil silent]; exact works)
    · exact .taken waited works (adds.callsTo_eq_nil silent _)
  waits r member := by
    rcases waits r member with old | ⟨job, inside, request, unfinished⟩
    · exact .inl old
    · exact .inr ⟨job, inside, request, unfinished, adds.callsTo_eq_nil silent _⟩
  results := .nothing (adds.results_eq_nil silent)
  strangers sink heard := absurd (adds.callsTo_eq_nil silent sink) heard

/-- The sinks of jobs in service are their own. -/
def Distinct (roster : List Job) : Prop := (roster.map fun job => job.state.sink).Nodup

/-- One job talks, in its place among the others. -/
theorem Handles.talk (before after jobs' : List Job) (calls : List Event) {job : Job}
    (here : roster = before ++ job :: after) (there : roster' = before ++ jobs' ++ after)
    (distinct : Distinct roster) (own : ∀ e ∈ calls, e.ToSink job.state.sink)
    (heard : ∀ sink, callsTo sink log = callsTo sink calls)
    (waits : ∀ r ∈ waiting', r ∈ waiting)
    (works : ∀ job' ∈ jobs', job'.request = job.request ∧ job.state.Works w O calls job'.state)
    (results : Settles w roster log) : Handles w O waiting waiting' roster roster' log where
  jobs job' member := by
    rw [Distinct, here, List.Nodup, List.pairwise_map, List.pairwise_append, List.pairwise_cons] at distinct
    rw [there, List.append_assoc, List.mem_append, List.mem_append] at member
    have stays : ∀ j ∈ roster, j.state.sink ≠ job.state.sink → Handled w O waiting roster log j := by
      intro j old other
      apply Handled.goesOn old rfl
      rw [heard, callsTo_other other own]
      exact .refl
    rcases member with earlier | placed | later
    · exact stays job' (by rw [here]; exact List.mem_append_left _ earlier)
        (distinct.2.2 job' earlier job List.mem_cons_self)
    · obtain ⟨request, works⟩ := works job' placed
      apply Handled.goesOn (show job ∈ roster by rw [here]; simp) request
      rw [heard, callsTo_own own]
      exact works
    · exact stays job' (by rw [here]; exact List.mem_append_right _ (List.mem_cons_of_mem _ later))
        (Ne.symm (distinct.2.1.1 job' later))
  waits r member := .inl (waits r member)
  results := results
  strangers sink spoken := by
    rw [heard] at spoken
    by_cases mine : sink = job.state.sink
    · exact ⟨job, by rw [here]; simp, mine.symm⟩
    · exact absurd (callsTo_other mine own) spoken

/-- A move that ends in fulfilling the promise of a notified job. -/
theorem Settles.deliver {job : Job} {state : SequenceState} {port : Port σ} (member : job ∈ roster)
    (ends : log = (Scheduler.deliver { job with state := state } port).log)
    (one : (log.filterMap Event.result?).length = 1)
    (works : job.state.Works w (fun _ => True) (callsTo job.state.sink log) state)
    (notified : state.notified = true) : Settles w roster log := by
  apply Settles.result member works notified ends
  -- the promise is the only one, and it comes last
  apply List.length_eq_zero_iff.mp
  rw [ends, Scheduler.filterMap_deliver] at one
  simpa [Event.result?] using one

end Handles

/-! ## Continuous mode -/

namespace Continuous

variable {σ : Type} {w : World σ} {config : SchedulerConfig} {s s' : Continuous σ} {q q' : RequestQueue}

/-- The tokens of a sequence need more blocks than the pool has. -/
def Outgrows (s : Continuous σ) (state : SequenceState) : Prop :=
  s.blocks.total <
    s.blocks.blocksFor (toUint32 (state.usage.promptTokens + state.usage.completionTokens))

theorem Layout.origin_crew (layout : Layout w config s) {job : Job} (member : job ∈ s.crew) :
    job.Origin w := by
  rcases List.mem_append.mp member with active | hand
  · exact layout.origin job active
  · cases pc : s.pc with
    | reserve inHand =>
      rw [pc] at hand
      cases List.mem_singleton.mp hand
      obtain ⟨request, slot, slots, rfl, _⟩ := layout.hand job pc
      exact origin_newJob w request slot
    | _ => simp [pc, Pc.inHand] at hand

end Continuous

/-- Jobs for different requests write to different sinks. -/
theorem distinct_of_owners {σ : Type} {w : World σ} {roster : List Job}
    (origins : ∀ job ∈ roster, job.Origin w) (once : (owners roster).Nodup) : Distinct roster := by
  rw [owners, List.Nodup, List.pairwise_map] at once
  rw [Distinct, List.Nodup, List.pairwise_map]
  apply once.imp_of_mem
  intro job job' member member' other same
  apply other
  apply Request.id_of_sinkRef
  have sink : job.state.sink = job.request.sinkRef := (origins job member).sink
  have sink' : job'.state.sink = job'.request.sinkRef := (origins job' member').sink
  rw [← sink, ← sink', same]

namespace Continuous

variable {σ : Type} {w : World σ} {config : SchedulerConfig} {s s' : Continuous σ} {q q' : RequestQueue}

/-- The jobs are as they were, up to work that no sink hears of. -/
theorem handles_quiet (silent : s.port.log = []) (adds : s.port.Adds Event.Unheard s'.port)
    (waits : ∀ r ∈ q'.queue ++ s'.pending, r ∈ q.queue ++ s.pending ∨
      ∃ job ∈ s.crew, job.request = r ∧ job.state.finished = false)
    (jobs : ∀ job' ∈ s'.crew, GoesOn w s.Outgrows s.crew job') :
    Handles w s.Outgrows (q.queue ++ s.pending) (q'.queue ++ s'.pending) s.crew s'.crew s'.port.log :=
  .quiet silent adds waits fun job' member => .inl (jobs job' member)

/-- A move that changes nothing but the place in the loop. -/
theorem handles_idle (silent : s.port.log = []) (active : s'.active = s.active)
    (pending : s'.pending = s.pending) (queue : q'.queue = q.queue) (hand : s'.pc.inHand = [])
    (port : s'.port = s.port) :
    Handles w s.Outgrows (q.queue ++ s.pending) (q'.queue ++ s'.pending) s.crew s'.crew s'.port.log := by
  apply handles_quiet silent
  · rw [port]
    exact .refl _
  · rw [pending, queue]
    exact fun _ member => .inl member
  · rw [crew_of_none hand, active]
    exact fun _ member => .refl (List.mem_append_left _ member)

/-- One job of the batch makes the calls, and nobody waits for another reason than before. -/
theorem handles_talk (calls : List Event) {before after : List Job} {job job' : Job}
    (distinct : Distinct s.crew) (here : s.active = before ++ job :: after)
    (there : s'.active = before ++ job' :: after) (hand : s.pc.inHand = []) (hand' : s'.pc.inHand = [])
    (pending : s'.pending = s.pending) (queue : q'.queue = q.queue)
    (own : ∀ e ∈ calls, e.ToSink job.state.sink)
    (heard : ∀ sink, callsTo sink s'.port.log = callsTo sink calls)
    (none : s'.port.log.filterMap Event.result? = []) (request : job'.request = job.request)
    (works : job.state.Works w s.Outgrows calls job'.state) :
    Handles w s.Outgrows (q.queue ++ s.pending) (q'.queue ++ s'.pending) s.crew s'.crew s'.port.log := by
  apply Handles.talk before after [job'] calls _ _ distinct own heard
  · rw [pending, queue]
    exact fun _ member => member
  · intro j member
    cases List.mem_singleton.mp member
    exact ⟨request, works⟩
  · exact .nothing none
  · rw [crew_of_none hand, here]
  · rw [crew_of_none hand', there]
    simp

/-- One sampled token, before what becomes of the job that is given it. -/
theorem handles_accept {before after : List Job} {job job' : Job} {step : GenStep} {goesOn : Bool}
    {state : SequenceState} {port : Port σ} (silent : s.port.log = []) (distinct : Distinct s.crew)
    (here : s.active = before ++ job :: after)
    (accepted : job.state.accept w step s.port = (goesOn, state, port))
    (there : s'.active = before ++ job' :: after) (hand : s.pc.inHand = []) (hand' : s'.pc.inHand = [])
    (pending : s'.pending = s.pending) (queue : q'.queue = q.queue)
    (adds : port.Adds Event.Unheard s'.port) (request : job'.request = job.request)
    (became : job'.state = state) :
    Handles w s.Outgrows (q.queue ++ s.pending) (q'.queue ++ s'.pending) s.crew s'.crew s'.port.log := by
  obtain ⟨texts, log, all, heard⟩ := SequenceState.accept_calls accepted
  rw [silent, List.nil_append] at log
  have quiet : ∀ sink, callsTo sink s'.port.log = callsTo sink texts := by
    intro sink
    rw [← log, callsTo, callsTo, adds.filterMap_eq fun e unheard => unheard.callTo sink]
  have none : s'.port.log.filterMap Event.result? = [] := by
    rw [adds.filterMap_eq fun e unheard => unheard.result?,
      Scheduler.filterMap_accept Event.result?_of_toSink accepted, silent]
    rfl
  apply handles_talk texts distinct here there hand hand' pending queue _ quiet none request
  · rw [became]
    exact .one (.accept (SequenceState.accept_accepts accepted) all heard)
  · exact fun e text => (all e text).toSink

/-- The job in hand takes its place behind the others. -/
theorem placed_goesOn (job' : Job) {job : Job} (pc : s.pc = .reserve job) (request : job'.request = job.request)
    (works : job.state.Works w s.Outgrows [] job'.state) (crew' : s'.crew = s.active ++ [job']) :
    ∀ j ∈ s'.crew, GoesOn w s.Outgrows s.crew j := by
  intro j member
  rw [crew'] at member
  rcases List.mem_append.mp member with active | placed
  · exact .refl (List.mem_append_left _ active)
  · cases List.mem_singleton.mp placed
    exact ⟨job, by simp [crew, pc, Pc.inHand], request, works⟩

/-- The batch that is built: some jobs take a chunk of their prompts. -/
theorem Layout.built_goesOn (layout : Layout w config s) :
    ∀ job' ∈ (buildBatch w.caps.nBatch config s.active).active, GoesOn w s.Outgrows s.crew job' := by
  intro job' member
  obtain ⟨job, active, served⟩ :=
    Lists.exists_of_forall₂_right (buildBatch_served w.caps.nBatch config layout.nodup) member
  refine ⟨job, List.mem_append_left _ active, ?_⟩
  generalize itemsOf job.state.seq _ = items at served
  cases served with
  | idle => exact ⟨rfl, .refl⟩
  | decode => exact ⟨rfl, .refl⟩
  | prefill unfinished => exact ⟨rfl, .one (.chunk unfinished)⟩

/-- A job that finishes with its sink told and its result delivered leaves the crew. -/
theorem handles_leave {before after : List Job} {job : Job} {calls : List Event}
    {state : SequenceState} {port : Port σ} (distinct : Distinct s.crew)
    (here : s.crew = before ++ job :: after) (there : s'.crew = before ++ after)
    (own : ∀ e ∈ calls, e.ToSink job.state.sink)
    (heard : ∀ sink, callsTo sink s'.port.log = callsTo sink calls)
    (pending : s'.pending = s.pending) (queue : q'.queue = q.queue)
    (ends : s'.port.log = (Scheduler.deliver { job with state := state } port).log)
    (one : (s'.port.log.filterMap Event.result?).length = 1)
    (works : job.state.Works w (fun _ => True) calls state) (notified : state.notified = true) :
    Handles w s.Outgrows (q.queue ++ s.pending) (q'.queue ++ s'.pending) s.crew s'.crew s'.port.log := by
  apply Handles.talk before after [] calls here _ distinct own heard
  · rw [pending, queue]
    exact fun _ member => member
  · simp
  · apply Settles.deliver (by rw [here]; simp) ends one _ notified
    rw [heard, callsTo_own own]
    exact works
  · rw [there, List.append_nil]

theorem Move.handles (move : Move w config s q s' q') (layout : Layout w config s) (orderly : s.Orderly)
    (silent : s.port.log = []) (once : (owners s.crew).Nodup) :
    Handles w s.Outgrows (q.queue ++ s.pending) (q'.queue ++ s'.pending) s.crew s'.crew s'.port.log := by
  have distinct := distinct_of_owners (fun job member => layout.origin_crew member) once
  have unsettled : s.port.log.filterMap Event.result? = [] := by simp [silent]
  have stays : ∀ {jobs : List Job}, jobs ⊆ s.crew → ∀ job' ∈ jobs, GoesOn w s.Outgrows s.crew job' :=
    fun sub job' member => .refl (sub member)
  have keeps : ∀ r ∈ q.queue ++ s.pending, r ∈ q.queue ++ s.pending ∨
      ∃ job ∈ s.crew, job.request = r ∧ job.state.finished = false := fun r member => .inl member
  cases move with
  -- admission: a request leaves the queue, then it has a job in hand
  | take pc room front =>
    refine handles_quiet silent (.refl _) ?_ (stays (List.Subset.refl _))
    intro r member
    left
    rw [front]
    simp only [List.mem_append, List.mem_cons] at member ⊢
    tauto
  | make pc next free begun =>
    apply Handles.quiet silent (.begin begun trivial)
    · intro r member
      left
      rw [next]
      simp only [List.mem_append, List.mem_cons] at member ⊢
      tauto
    · intro job' member
      rcases List.mem_append.mp member with active | hand
      · exact .inl (.refl (List.mem_append_left _ active))
      · cases List.mem_singleton.mp hand
        refine .inr ⟨_, ?_, .refl⟩
        rw [next]
        simp
  | makeCrash pc next free begun =>
    apply handles_quiet silent (.begin begun trivial)
    · intro r member
      left
      rw [next]
      simp only [List.mem_append, List.mem_cons] at member ⊢
      tauto
    · rw [crew_of_none rfl]
      exact stays (List.subset_append_left _ _)
  | admitted pc =>
    refine handles_idle silent rfl rfl rfl ?_ rfl
    simp only
    split <;> rfl
  -- making room, for the job in hand or for a starved one
  | giveUp pc short evicted | reclaimDonor pc here full evicted =>
    exact handles_quiet silent
      ((Scheduler.reclaimDonorBlocks_adds evicted).mono fun _ eviction => eviction.unheard)
      keeps (stays (List.Subset.refl _))
  | @reject job pc unfinished full alone =>
    obtain ⟨calls, log, closing⟩ := SequenceState.finish_calls (w := w)
      (job.state.fail (s.rejectMessage job) .contextOverflow) s.port
    rw [silent, List.nil_append] at log
    have heard : ∀ sink, callsTo sink (s.reject w job).port.log = callsTo sink calls := by
      intro sink
      rw [← log]
      simp [Continuous.reject, callsTo, Event.callTo]
    have here : s.crew = [] ++ job :: [] := by simp [crew, alone, pc, Pc.inHand]
    refine handles_leave distinct here (by simp [crew, Continuous.reject, alone, Pc.inHand]) closing.toSink
      heard rfl rfl rfl ?_ ?_ ?_
    · simp [Continuous.reject, Scheduler.filterMap_finish Event.result?_of_toSink, unsettled, Event.result?]
    · rw [SequenceState.finish_state, ← List.nil_append calls]
      exact .two (.overflow unfinished trivial) (.close rfl closing)
    · rw [SequenceState.finish_state]
      exact SequenceState.closed_notified _
  | @defer job pc unfinished full busy =>
    apply handles_quiet silent
    · exact (Port.Adds.release _ _ trivial).trans (.note _ trivial)
    · -- the request in hand waits again, in front of the others
      intro r member
      simp only [Continuous.defer, Job.reclaim_eq, List.mem_append, List.mem_cons] at member
      rcases member with queued | rfl | pending
      · exact .inl (List.mem_append_left _ queued)
      · exact .inr ⟨job, by simp [crew, pc, Pc.inHand], rfl, unfinished⟩
      · exact .inl (List.mem_append_right _ pending)
    · rw [crew_of_none (by simp [Continuous.defer, busy, Pc.inHand])]
      exact stays (List.subset_append_left _ _)
  | @placeFailed job pc failed =>
    refine handles_quiet silent (.note _ trivial) keeps ?_
    apply stays
    simp [crew, Continuous.place, pc, Pc.inHand]
  | @place job table blocks cache pc =>
    refine handles_quiet silent (.note _ trivial) keeps ?_
    apply placed_goesOn { job with blocks := table } pc rfl .refl
    exact List.append_nil _
  | @adopt job table blocks cache hit port pc fits same caching found positive within copied =>
    refine handles_quiet silent ?_ keeps ?_
    · exact ((((Port.Adds.copy copied trivial).trans (.note _ trivial)).trans (.note _ trivial)).trans
        (.note _ trivial)).trans (.note _ trivial)
    · apply placed_goesOn (inherit job table hit) pc rfl (.one (.adopt fits.unfinished))
      exact List.append_nil _
  | adoptCrash pc fits same copied =>
    refine handles_quiet silent (.copy copied trivial) keeps ?_
    rw [crew_of_none rfl]
    exact stays (List.subset_append_left _ _)
  -- the batch and what its decode gives
  | buildNothing pc =>
    refine handles_quiet silent (.refl _) keeps ?_
    rw [crew_of_none rfl]
    exact layout.built_goesOn
  | decode pc something returned =>
    refine handles_quiet silent (.decoded returned) keeps ?_
    rw [crew_of_none rfl]
    exact layout.built_goesOn
  | decodeFail pc something threw =>
    refine handles_quiet silent (.decoded threw) keeps ?_
    rw [crew_of_none rfl]
    intro job' member
    obtain ⟨job, inside, rfl⟩ := List.mem_map.mp member
    exact (layout.built_goesOn job inside).fail _
  | acceptFail pc =>
    refine handles_quiet silent (.refl _) keeps ?_
    rw [crew_of_none rfl]
    intro job' member
    obtain ⟨job, inside, rfl⟩ := List.mem_map.mp member
    exact GoesOn.fail (.refl (List.mem_append_left _ inside)) _
  | @acceptFinish sampling step steps grewShort before job after state port pc here accepted =>
    -- the last text and the closing call both go to the job's own sink
    obtain ⟨texts, log, all, heard⟩ := SequenceState.accept_calls accepted
    rw [silent, List.nil_append] at log
    obtain ⟨calls, log', closing⟩ := SequenceState.finish_calls (w := w) state port
    have sink := (SequenceState.accept_same accepted).sink
    have stopped := (SequenceState.accept_accepts accepted).finished_of_stops
    refine handles_talk (texts ++ calls) distinct here rfl (by rw [pc]; rfl) rfl rfl rfl ?_ ?_ ?_ rfl ?_
    · intro e member
      rcases List.mem_append.mp member with text | call
      · exact (all e text).toSink
      · rw [← sink]
        exact closing.toSink e call
    · intro sink
      rw [log', log]
    · rw [Scheduler.filterMap_finish Event.result?_of_toSink,
        Scheduler.filterMap_accept Event.result?_of_toSink accepted, unsettled]
    · rw [SequenceState.finish_state]
      exact .two (.accept (SequenceState.accept_accepts accepted) all heard) (.close stopped closing)
  | acceptStarve pc here accepted full | acceptGrow pc here accepted grown =>
    exact handles_accept silent distinct here accepted rfl (by rw [pc]; rfl) rfl rfl rfl (.refl _) rfl rfl
  | acceptPublish pc here accepted grown published =>
    subst published
    exact handles_accept silent distinct here accepted rfl (by rw [pc]; rfl) rfl rfl rfl
      (.note _ trivial) rfl rfl
  -- the sweeps
  | @sweepRetire starved before job after pc here finished =>
    obtain ⟨calls, log, closing⟩ := SequenceState.finish_calls (w := w) job.state s.port
    rw [silent, List.nil_append] at log
    have heard : ∀ sink, callsTo sink (s.retire w config job).port.log = callsTo sink calls := by
      intro sink
      rw [← log]
      exact Scheduler.filterMap_retire_sinks (Event.callTo_of_internal sink) (fun _ _ => rfl) job _
    have nobody : s.pc.inHand = [] := by rw [pc]; rfl
    refine handles_leave distinct (by rw [crew_of_none nobody, here]) (crew_of_none nobody)
      closing.toSink heard rfl rfl rfl ?_ ?_ ?_
    · rw [Scheduler.filterMap_retire Event.result?_of_toSink Event.result?_of_internal, unsettled]
      rfl
    · rw [SequenceState.finish_state]
      exact .one (.close finished closing)
    · rw [SequenceState.finish_state]
      exact SequenceState.closed_notified _
  | sweepLoop pc =>
    refine handles_quiet silent (.note _ trivial) keeps ?_
    rw [crew_of_none rfl]
    exact stays (List.subset_append_left _ _)
  | @resolveFail starved before job after finished pc here large failed =>
    subst failed
    have unfinished := orderly.running job (by rw [here]; simp) (by simp [pc, Pc.running, Pc.sampled])
    obtain ⟨calls, log, closing⟩ := SequenceState.finish_calls (w := w)
      (job.state.fail (s.exhaustedMessage job) .contextOverflow) s.port
    rw [silent, List.nil_append] at log
    refine handles_talk calls distinct here rfl (by rw [pc]; rfl) rfl rfl rfl closing.toSink
      (fun sink => by rw [log]) ?_ rfl ?_
    · rw [Scheduler.filterMap_finish Event.result?_of_toSink, unsettled]
    · rw [SequenceState.finish_state, ← List.nil_append calls]
      exact .two (.overflow unfinished large) (.close rfl closing)
  | reclaimGrow pc here | preemptGrow pc here =>
    exact handles_talk [] distinct here rfl (by rw [pc]; rfl) rfl rfl rfl (by simp)
      (fun sink => by rw [silent]) unsettled rfl .refl
  | @preemptEvict slot starved job before victim after pc starving named full here unfinished other last =>
    apply handles_quiet silent
    · exact ((Port.Adds.release _ _ trivial).trans (.note _ trivial)).trans (.note _ trivial)
    · -- the victim waits again, in front of the others
      intro r member
      simp only [Job.reclaim_eq, List.mem_append, List.mem_cons] at member
      rcases member with queued | rfl | pending
      · exact .inl (List.mem_append_left _ queued)
      · exact .inr ⟨victim, by simp [crew, here], rfl, unfinished⟩
      · exact .inl (List.mem_append_right _ pending)
    · rw [crew_of_none (by rw [pc]; rfl)]
      apply stays
      intro j member
      rw [crew, here]
      simp only [List.mem_append, List.mem_cons] at member ⊢
      tauto
  | leave pc | finish pc | acceptEnd pc | acceptStray pc | sweepKeep pc | sweepResolve pc
  | resolveEnd pc | resolveGone pc | resolveRoom pc | reclaimGone pc | reclaimEnd pc | preemptGone pc
  | preemptEnd pc => exact handles_idle silent rfl rfl rfl rfl rfl

end Continuous

/-! ## Static mode -/

namespace Static

variable {σ : Type} {w : World σ} {config : SchedulerConfig} {s s' : Static σ} {q q' : RequestQueue}

/-- The jobs of the batch that have not been delivered. -/
def roster (s : Static σ) : List Job :=
  match s.pc with
  | .make _ | .prefill _ | .acceptPrefill .. | .decode | .acceptDecode .. => s.jobs
  | .deliver i => s.jobs.drop i
  | .collect _ | .done | .crashed _ => []

/-- The requests of the batch that have no job yet. -/
def waiting (s : Static σ) : List Request :=
  match s.pc with
  | .collect batch => batch
  | .make requests => requests
  | _ => []

theorem held_eq (s : Static σ) : s.held = owners s.roster ++ requestIds s.waiting := by
  unfold held roster waiting
  split <;> simp_all

theorem roster_stay {leave : StaticPc} {stay : List Nat → List GenStep → StaticPc} {slots : List Nat}
    {steps : List GenStep} (loop : AcceptLoop leave stay) (pc : s.pc = stay slots steps) :
    s.roster = s.jobs ∧ s.waiting = [] := by
  cases loop <;> simp [roster, waiting, pc]

theorem roster_leave {leave : StaticPc} {stay : List Nat → List GenStep → StaticPc}
    (loop : AcceptLoop leave stay) (pc : s.pc = leave) : s.roster = s.jobs ∧ s.waiting = [] := by
  cases loop <;> simp [roster, waiting, pc]

theorem sliced_works {O : SequenceState → Prop} (i nBatch : Nat) (jobs : List Job) :
    List.Forall₂ (fun job job' => job'.request = job.request ∧ job.state.Works w O [] job'.state)
      jobs (jobs.take i ++ (buildSlice nBatch 0 false (jobs.drop i)).1) :=
  sliced_relates (fun _ => ⟨rfl, .refl⟩) (fun _ unfinished => ⟨rfl, .one (.chunk unfinished)⟩) i nBatch jobs

/-- On the failure path every job is failed if it has to be, and told once. -/
theorem settleAll_works (message : String) {jobs : List Job} (distinct : Distinct jobs) (port : Port σ) :
    ∃ log, (settleAll w message jobs port).2.log = port.log ++ log ∧
      log.filterMap Event.result? = [] ∧
      (∀ sink, callsTo sink log ≠ [] → ∃ job ∈ jobs, job.state.sink = sink) ∧
      ∀ job' ∈ (settleAll w message jobs port).1, job'.state.finished = true ∧ ∃ job ∈ jobs,
        job'.request = job.request ∧
        job.state.Works w (fun _ => True) (callsTo job.state.sink log) job'.state := by
  induction jobs generalizing port with
  | nil => exact ⟨[], by simp [settleAll]⟩
  | cons job jobs ih =>
    rw [Distinct, List.map_cons, List.nodup_cons] at distinct
    -- the state that is told, and what its sink hears
    obtain ⟨state, failed⟩ : ∃ state,
        state = if job.state.finished then job.state else job.state.fail message := ⟨_, rfl⟩
    have finished : state.finished = true := by
      rw [failed]
      split
      · assumption
      · rfl
    have fails : job.state.Works w (fun _ => True) [] state := by
      rw [failed]
      split
      · exact .refl
      · rename_i unfinished
        exact .one (.fail (by simpa using unfinished))
    have sink : state.sink = job.state.sink := fails.same.sink
    obtain ⟨calls, told, closing⟩ := SequenceState.finish_calls (w := w) state port
    have own : ∀ e ∈ calls, e.ToSink job.state.sink := sink ▸ closing.toSink
    obtain ⟨log, rest, unsettled, strangers, works⟩ := ih distinct.2
      ((state.finish w port).2.releaseSequence w (state.finish w port).1.seq)
    have released : ∀ sink', callsTo sink' (calls ++ [.releaseSequence (state.finish w port).1.seq] ++ log) =
        callsTo sink' calls ++ callsTo sink' log := by
      intro sink'
      rw [callsTo_append, callsTo_append]
      exact congrArg (· ++ _) (List.append_nil _)
    have apart : ∀ j ∈ jobs, j.state.sink ≠ job.state.sink := by
      intro j member same
      exact distinct.1 (List.mem_map.mpr ⟨j, member, same⟩)
    refine ⟨calls ++ [.releaseSequence (state.finish w port).1.seq] ++ log, ?_, ?_, ?_, ?_⟩
    · simp only [settleAll, ← failed]
      rw [rest]
      simp only [Port.releaseSequence, told, List.append_assoc]
    · simp only [List.filterMap_append, unsettled, List.append_nil]
      apply List.append_eq_nil_iff.mpr
      refine ⟨?_, rfl⟩
      apply List.filterMap_eq_nil_iff.mpr
      exact fun e member => Event.result?_of_toSink _ e (own e member)
    · intro sink' heard
      by_cases mine : sink' = job.state.sink
      · exact ⟨job, List.mem_cons_self, mine.symm⟩
      · rw [released, callsTo_other mine own, List.nil_append] at heard
        obtain ⟨j, member, same⟩ := strangers sink' heard
        exact ⟨j, List.mem_cons_of_mem _ member, same⟩
    · intro job' member
      simp only [settleAll, ← failed] at member
      rcases List.mem_cons.mp member with rfl | inside
      · refine ⟨SequenceState.finish_finished finished port, job, List.mem_cons_self, rfl, ?_⟩
        have nobody : callsTo job.state.sink log = [] := by
          by_contra heard
          obtain ⟨j, member, same⟩ := strangers _ heard
          exact apart j member same
        rw [released, callsTo_own own, nobody, List.append_nil, SequenceState.finish_state]
        exact fails.tail (.close finished closing)
      · obtain ⟨isOver, j, old, request, works⟩ := works job' inside
        refine ⟨isOver, j, List.mem_cons_of_mem _ old, request, ?_⟩
        rw [released, callsTo_other (apart j old) own, List.nil_append]
        exact works

theorem distinct_sliced {i : Nat} (distinct : Distinct s.jobs) (nBatch : Nat) :
    Distinct (s.jobs.take i ++ (buildSlice nBatch 0 false (s.jobs.drop i)).1) := by
  rw [Distinct, map_sliced fun _ => rfl]
  exact distinct

/-- What a failing batch does to its jobs. -/
theorem handles_failBatch {t : Static σ} {message : String} (silent : s.port.log = [])
    (adds : s.port.Adds Event.Unheard t.port) (distinct : Distinct t.jobs)
    (jobs : ∀ job ∈ t.jobs, GoesOn w (fun _ => True) s.roster job) :
    Handles w (fun _ => True) (q.queue ++ s.waiting) (q.queue ++ (t.failBatch w message).waiting)
      s.roster (t.failBatch w message).roster (t.failBatch w message).port.log := by
  obtain ⟨more, added, unsettled, strangers, works⟩ := settleAll_works (w := w) message distinct t.port
  have whole : (t.failBatch w message).port.log = t.port.log ++ more := added
  have heard : ∀ sink, callsTo sink (t.failBatch w message).port.log = callsTo sink more := by
    intro sink
    rw [whole, callsTo_append, adds.callsTo_eq_nil silent, List.nil_append]
  constructor
  · intro job' member
    obtain ⟨_, job, inside, request, settled⟩ := works job' member
    obtain ⟨old, origin, same, worked⟩ := jobs job inside
    apply Handled.goesOn origin (request.trans same)
    rw [heard, ← worked.same.sink]
    exact worked.trans settled
  · intro r member
    exact .inl (by simpa [failBatch, waiting] using List.mem_append_left s.waiting member)
  · apply Settles.nothing
    rw [whole, List.filterMap_append, adds.results_eq_nil silent, unsettled, List.nil_append]
  · intro sink spoken
    rw [heard] at spoken
    obtain ⟨job, inside, same⟩ := strangers sink spoken
    obtain ⟨old, origin, sink'⟩ := (jobs job inside).sink
    exact ⟨old, origin, sink'.symm.trans same⟩

/-- A move that no sink and no client hears of and that keeps the jobs or forgets them. -/
theorem handles_quiet (silent : s.port.log = []) (adds : s.port.Adds Event.Unheard s'.port)
    (sub : s'.roster ⊆ s.roster) (waits : ∀ r ∈ q'.queue ++ s'.waiting, r ∈ q.queue ++ s.waiting) :
    Handles w (fun _ => True) (q.queue ++ s.waiting) (q'.queue ++ s'.waiting) s.roster s'.roster
      s'.port.log :=
  .quiet silent adds (fun r member => .inl (waits r member)) fun _ member => .inl (.refl (sub member))

/-- The next request of the batch has its job. -/
theorem handles_make (slot : Nat) {request : Request} {rest : List Request} {job : Job}
    (silent : s.port.log = []) (adds : s.port.Adds Event.Unheard s'.port)
    (pc : s.pc = .make (request :: rest)) (pc' : s'.pc = .make rest) (jobs : s'.jobs = s.jobs ++ [job])
    (queue : q'.queue = q.queue) (owned : job.request = request)
    (works : (Scheduler.newJob w request slot).state.Works w (fun _ => True) [] job.state) :
    Handles w (fun _ => True) (q.queue ++ s.waiting) (q'.queue ++ s'.waiting) s.roster s'.roster
      s'.port.log := by
  have before : s.roster = s.jobs ∧ s.waiting = request :: rest := by simp [roster, waiting, pc]
  have after : s'.roster = s.jobs ++ [job] ∧ s'.waiting = rest := by simp [roster, waiting, pc', jobs]
  apply Handles.quiet silent adds
  · intro r member
    left
    rw [queue, after.2] at member
    rw [before.2]
    simp only [List.mem_append, List.mem_cons] at member ⊢
    tauto
  · intro j member
    rw [after.1] at member
    rcases List.mem_append.mp member with old | new
    · exact .inl (.refl (by rw [before.1]; exact old))
    · cases List.mem_singleton.mp new
      refine .inr ⟨slot, ?_, by rw [owned]; exact works⟩
      rw [owned, before.2]
      simp

/-- Some jobs take a slice of their prompts. -/
theorem sliced_goesOn {i : Nat} (all : s.roster = s.jobs) :
    ∀ job' ∈ s.jobs.take i ++ (buildSlice w.caps.nBatch 0 false (s.jobs.drop i)).1,
      GoesOn w (fun _ => True) s.roster job' := by
  intro job' member
  rw [all]
  exact Lists.exists_of_forall₂_right (sliced_works i w.caps.nBatch s.jobs) member

theorem Move.handles (move : Move w config s q s' q') (isOver : s.Over) (silent : s.port.log = [])
    (distinct : Distinct s.roster) :
    Handles w (fun _ => True) (q.queue ++ s.waiting) (q'.queue ++ s'.waiting) s.roster s'.roster
      s'.port.log := by
  have unsettled : s.port.log.filterMap Event.result? = [] := by simp [silent]
  cases move with
  -- the batch is collected
  | collect pc front =>
    refine handles_quiet silent (.refl _) ?_ ?_
    · simp [roster, pc]
    · intro r member
      rw [front]
      simp only [waiting, pc, List.mem_append, List.mem_cons] at member ⊢
      tauto
  | finish pc | form pc =>
    exact handles_quiet silent (.refl _) (by simp [roster]) (by simp [waiting, pc])
  | made pc | prefillEnd pc | decodeEnd pc =>
    exact handles_quiet silent (.refl _) (by simp [roster, pc]) (by simp [waiting, pc])
  -- its requests get their jobs
  | makeCrash pc begun =>
    apply handles_quiet silent (.begin begun trivial) (by simp [roster])
    intro r member
    simpa [waiting] using List.mem_append_left s.waiting member
  | @makeFailed request rest job port pc begun made
  | @make request rest job port table blocks pc begun made =>
    refine handles_make s.jobs.length silent ((Port.Adds.begin begun trivial).trans (.note _ trivial)) pc rfl
      rfl rfl (by simp [made]) ?_
    rw [made]
    exact .refl
  | @makeFull request rest job port pc begun made unfinished =>
    refine handles_make s.jobs.length silent (.begin begun trivial) pc rfl rfl rfl (by simp [made]) ?_
    subst made
    exact .one (.overflow unfinished trivial)
  -- prefill and decode
  | prefillSkip pc more sliced =>
    subst sliced
    apply Handles.quiet silent (.refl _) fun r member => .inl (by simpa [waiting, pc] using member)
    exact fun job' member => .inl (sliced_goesOn (by simp [roster, pc]) job' member)
  | prefill pc more sliced something returned =>
    subst sliced
    apply Handles.quiet silent (.decoded returned) fun r member => .inl (by simpa [waiting, pc] using member)
    exact fun job' member => .inl (sliced_goesOn (by simp [roster, pc]) job' member)
  | prefillFail pc more sliced something threw =>
    subst sliced
    have all : s.roster = s.jobs := by simp [roster, pc]
    exact handles_failBatch silent (.decoded threw) (distinct_sliced (all ▸ distinct) _) (sliced_goesOn all)
  | decode pc those some returned =>
    exact handles_quiet silent (.decoded returned) (by simp [roster, pc]) (by simp [waiting, pc])
  | decodeFail pc those some threw =>
    have all : s.roster = s.jobs := by simp [roster, pc]
    exact handles_failBatch silent (.decoded threw) (all ▸ distinct) fun _ member => .refl (all ▸ member)
  | acceptFail loop pc =>
    have all := (roster_stay loop pc).1
    exact handles_failBatch silent (.refl _) (all ▸ distinct) fun _ member => .refl (all ▸ member)
  | acceptEnd loop pc =>
    refine handles_quiet silent (.refl _) ?_ ?_
    · rw [(roster_stay loop pc).1, (roster_leave loop rfl).1]
      exact List.Subset.refl _
    · rw [(roster_stay loop pc).2, (roster_leave loop rfl).2]
      exact fun _ member => member
  | acceptStray loop pc =>
    refine handles_quiet silent (.refl _) ?_ ?_
    · rw [(roster_stay loop pc).1, (roster_stay loop rfl).1]
      exact List.Subset.refl _
    · rw [(roster_stay loop pc).2, (roster_stay loop rfl).2]
      exact fun _ member => member
  | @acceptGoOn leave stay slots step steps before job after state port loop pc here accepted =>
    obtain ⟨texts, log, all, heard⟩ := SequenceState.accept_calls accepted
    rw [silent, List.nil_append] at log
    apply Handles.talk before after [{ job with state := state }] texts _ _ distinct
      (fun e text => (all e text).toSink) (fun sink => by rw [log])
    · rw [(roster_stay loop pc).2, (roster_stay loop rfl).2]
      exact fun _ member => member
    · intro j member
      cases List.mem_singleton.mp member
      exact ⟨rfl, .one (.accept (SequenceState.accept_accepts accepted) all heard)⟩
    · apply Settles.nothing
      rw [Scheduler.filterMap_accept Event.result?_of_toSink accepted, unsettled]
    · rw [(roster_stay loop pc).1, here]
    · rw [(roster_stay loop rfl).1]
      simp
  | @acceptFinish leave stay slots step steps before job after state port finished loop pc here accepted
      notified =>
    subst notified
    obtain ⟨texts, log, all, heard⟩ := SequenceState.accept_calls accepted
    rw [silent, List.nil_append] at log
    obtain ⟨calls, log', closing⟩ := SequenceState.finish_calls (w := w) state port
    have sink := (SequenceState.accept_same accepted).sink
    have stopped := (SequenceState.accept_accepts accepted).finished_of_stops
    apply Handles.talk before after [{ job with state := (state.finish w port).1 }] (texts ++ calls) _ _ distinct
    · intro e member
      rcases List.mem_append.mp member with text | call
      · exact (all e text).toSink
      · rw [← sink]
        exact closing.toSink e call
    · intro sink
      rw [← log, ← log']
      simp [callsTo, Event.callTo]
    · rw [(roster_stay loop pc).2, (roster_stay loop rfl).2]
      exact fun _ member => member
    · intro j member
      cases List.mem_singleton.mp member
      refine ⟨rfl, ?_⟩
      rw [SequenceState.finish_state]
      exact .two (.accept (SequenceState.accept_accepts accepted) all heard) (.close stopped closing)
    · apply Settles.nothing
      simp [Scheduler.filterMap_finish Event.result?_of_toSink,
        Scheduler.filterMap_accept Event.result?_of_toSink accepted, unsettled, Event.result?]
    · rw [(roster_stay loop pc).1, here]
    · rw [(roster_stay loop rfl).1]
      simp
  | @deliver before job after finished pc here notified =>
    subst notified
    obtain ⟨calls, log, closing⟩ := SequenceState.finish_calls (w := w) job.state s.port
    rw [silent, List.nil_append] at log
    have own : ∀ e ∈ calls, e.ToSink job.state.sink := closing.toSink
    have front : s.roster = [] ++ job :: after := by simp [roster, pc, here]
    have finished := isOver before.length pc job (by rw [here]; simp)
    obtain ⟨final, ends⟩ : ∃ final, final = (Scheduler.deliver
        { job with state := (job.state.finish w s.port).1, blocks := {} }
        ((job.state.finish w s.port).2.note (.stat .completed 1))).log := ⟨_, rfl⟩
    have heard : ∀ sink, callsTo sink final = callsTo sink calls := by
      intro sink
      rw [← log, ends]
      simp [callsTo, Event.callTo]
    have one : (final.filterMap Event.result?).length = 1 := by
      rw [ends]
      simp [Scheduler.filterMap_finish Event.result?_of_toSink, unsettled, Event.result?]
    have works : job.state.Works w (fun _ => True) (callsTo job.state.sink final)
        (job.state.finish w s.port).1 := by
      rw [heard, callsTo_own own, SequenceState.finish_state]
      exact .one (.close finished closing)
    simp only [← ends]
    apply Handles.talk [] after [] calls front _ distinct own heard
    · simp [waiting, pc]
    · simp
    · apply Settles.deliver (by rw [front]; simp) ends one works
      rw [SequenceState.finish_state]
      exact SequenceState.closed_notified _
    · simp [roster, List.drop_append, List.drop_eq_nil_of_le]
  | deliverEnd pc through =>
    exact handles_quiet silent (.note _ trivial) (by simp [roster]) (by simp [waiting, pc])

end Static

end MicroVllm
