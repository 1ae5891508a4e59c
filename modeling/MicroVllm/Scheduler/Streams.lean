import MicroVllm.Emission
import MicroVllm.Scheduler.Entries

/-! # Streaming through the loop

What the sink of a request has been sent, while the request waits, runs and is delivered.
A waiting request has sent nothing, a running one what its state machine counts as emitted.
The one move that breaks this is the preemption of a request that has already sent text:
it waits again, and starts over.
-/

namespace MicroVllm

theorem Event.deltaTo_of_internal (sink : SinkRef) (e : Event) (inside : e.Internal) :
    e.deltaTo sink = none := by
  cases e <;> first | rfl | cases inside

/-- Two stages of one job between which no text was produced or sent. -/
structure Job.SameText (job job' : Job) : Prop extends Job.Same job job' where
  text : job'.state.text = job.state.text
  emitted : job'.state.emitted = job.state.emitted

theorem Job.SameText.refl (job : Job) : job.SameText job := ⟨.refl job, rfl, rfl⟩

theorem Job.SameText.trans {job job' job'' : Job} (first : job.SameText job')
    (second : job'.SameText job'') : job.SameText job'' :=
  ⟨first.toSame.trans second.toSame, second.text.trans first.text, second.emitted.trans first.emitted⟩

/-- A job writes to the sink that came with its request, if one did. -/
theorem Job.Origin.sink_eq_supplied {σ : Type} {w : World σ} {job : Job} {id : Nat}
    (origin : job.Origin w) :
    job.state.sink = .supplied id ↔ job.request.sink = true ∧ job.request.id = id := by
  rw [origin.sink]
  cases job.request.sink <;> simp

/-- A retiring job sends what it still has to say, and the rest of its way out is silent. -/
theorem Scheduler.retire_streamed {σ : Type} {w : World σ} {config : SchedulerConfig} (job : Job)
    (m : Scheduler σ) (sink : SinkRef) :
    streamed sink (m.retire w config job).port.log =
      streamed sink (job.state.finish w m.port).2.log :=
  congrArg List.flatten (filterMap_retire_sinks (Event.deltaTo_of_internal sink) (fun _ _ => rfl) job m)

namespace Continuous

variable {σ : Type} {w : World σ} {config : SchedulerConfig}

/-- The job that the next turn preempts. -/
def evictee? (s : Continuous σ) : Option Job :=
  match s.pc with
  | .preempt slot _ =>
    match findJob slot s.active with
    | some job =>
      if (job.blocks.ensureCapacity job.needed s.blocks).isSome then none else victim? slot s.active
    | none => none
  | _ => none

theorem victim?_around {slot : Nat} {before after : List Job} {victim : Job}
    (unfinished : victim.state.finished = false) (other : victim.state.seq ≠ slot)
    (last : ∀ j ∈ after, j.state.finished = true ∨ j.state.seq = slot) :
    victim? slot (before ++ victim :: after) = some victim := by
  apply List.find?_eq_some_iff_append.mpr
  refine ⟨by simp [unfinished, other], after.reverse, before.reverse, by simp, ?_⟩
  intro j later
  rcases last j (List.mem_reverse.mp later) with done | named
  · simp [done]
  · simp [named]

theorem evictee?_of_full {s : Continuous σ} (layout : Layout w config s) {slot : Nat}
    {starved : List Nat} {job victim : Job} {before after : List Job} (pc : s.pc = .preempt slot starved)
    (starving : job ∈ s.active) (named : job.state.seq = slot)
    (full : job.blocks.ensureCapacity job.needed s.blocks = none)
    (here : s.active = before ++ victim :: after) (unfinished : victim.state.finished = false)
    (other : victim.state.seq ≠ slot)
    (last : ∀ j ∈ after, j.state.finished = true ∨ j.state.seq = slot) : s.evictee? = some victim := by
  have found : findJob slot s.active = some job := by
    obtain ⟨front, back, split⟩ := List.append_of_mem starving
    rw [← named, split]
    exact findJob_around (split ▸ layout.nodup)
  simp only [evictee?, pc, found, full, Option.isSome_none, Bool.false_eq_true, if_false]
  rw [here]
  exact victim?_around unfinished other last

theorem evictee?_eq_some {s : Continuous σ} {victim : Job} (found : s.evictee? = some victim) :
    ∃ slot starved job before after, s.pc = .preempt slot starved ∧ job ∈ s.active ∧
      job.state.seq = slot ∧ job.blocks.ensureCapacity job.needed s.blocks = none ∧
      s.active = before ++ victim :: after ∧ victim.state.finished = false ∧
      victim.state.seq ≠ slot ∧ ∀ j ∈ after, j.state.finished = true ∨ j.state.seq = slot := by
  simp only [evictee?] at found
  split at found
  · rename_i slot starved pc
    split at found
    · rename_i job here
      split at found
      · cases found
      · rename_i full
        obtain ⟨front, back, split, named⟩ := findJob_eq_some here
        obtain ⟨before, after, around, unfinished, other, last⟩ := victim?_eq_some found
        exact ⟨slot, starved, job, before, after, pc, by rw [split]; simp, named, by simpa using full,
          around, unfinished, other, last⟩
    · cases found
  · cases found

/-- The sink of request `id` has been sent `text`, as far as the queue and the thread know of
    the request. -/
structure Streaming (id : Nat) (text : Text) (s : Continuous σ) (q : RequestQueue) : Prop where
  waiting : id ∈ requestIds q.queue ++ (requestIds s.pending ++ owners s.pc.inHand) → text = []
  bounded : ∀ job ∈ s.active, job.state.Bounded
  active : ∀ job ∈ s.active, job.request.id = id →
    text = if job.request.sink then job.state.emittedText else []

namespace Streaming

variable {s s' : Continuous σ} {q q' : RequestQueue} {id : Nat} {text : Text}

/-- A move that sends nothing, and after which nobody waits who did not. -/
theorem frame (streaming : Streaming id text s q)
    (wait : id ∈ requestIds q'.queue ++ (requestIds s'.pending ++ owners s'.pc.inHand) →
      id ∈ requestIds q.queue ++ (requestIds s.pending ++ owners s.pc.inHand))
    (jobs : List.Forall₂ Job.SameText s.active s'.active) : Streaming id text s' q' where
  waiting member := streaming.waiting (wait member)
  bounded job member := by
    obtain ⟨old, active, same⟩ := Lists.exists_of_forall₂_right jobs member
    have bounded := streaming.bounded old active
    unfold SequenceState.Bounded at bounded ⊢
    rw [same.text, same.emitted]
    exact bounded
  active job member named := by
    obtain ⟨old, active, same⟩ := Lists.exists_of_forall₂_right jobs member
    have sent := streaming.active old active (by rw [← same.request]; exact named)
    rw [sent, same.request]
    simp only [SequenceState.emittedText, same.text, same.emitted]

theorem frame_jobs (streaming : Streaming id text s q) (queue : q'.queue = q.queue)
    (pending : s'.pending = s.pending) (hand : s'.pc.inHand = s.pc.inHand)
    (jobs : List.Forall₂ Job.SameText s.active s'.active) : Streaming id text s' q' :=
  streaming.frame (by rw [queue, pending, hand]; exact fun member => member) jobs

/-- One active job goes on and may send text of its own. -/
theorem step (streaming : Streaming id text s q) (layout : Layout w config s)
    (silent : s.port.log = []) (once : (requestIds q.queue ++ s.held).Nodup)
    {before after : List Job} {job job' : Job} {port : Port σ}
    (here : s.active = before ++ job :: after) (same : job.Same job')
    (emits : job.state.Emits s.port job'.state port)
    (log : streamed (.supplied id) s'.port.log = streamed (.supplied id) port.log)
    (pending : s'.pending = s.pending) (hand : s'.pc.inHand = s.pc.inHand)
    (active : s'.active = before ++ job' :: after) :
    Streaming id (text ++ streamed (.supplied id) s'.port.log) s' q ∧
      (id ∉ owners s.active → streamed (.supplied id) s'.port.log = []) := by
  have member : job ∈ s.active := by rw [here]; simp
  have origin := layout.origin job member
  have bounded : ∀ j ∈ s'.active, j.state.Bounded := by
    intro j inside
    rw [active] at inside
    rcases Lists.mem_of_around here inside with rfl | old
    · exact emits.bounded
    · exact streaming.bounded j old
  by_cases own : job.state.sink = .supplied id
  · -- the job is the request's, and the request is nowhere else
    obtain ⟨delta, produced, sent⟩ := emits.own
    obtain ⟨supplied, named⟩ := origin.sink_eq_supplied.mp own
    have so := streaming.active job member named
    rw [supplied, if_pos rfl] at so
    rw [own, silent, streamed_nil, List.nil_append] at sent
    simp only [held, here, owners_append, owners_cons] at once
    have absent : id ∉ requestIds q.queue ++ (requestIds s.pending ++ owners s.pc.inHand) ∧
        id ∉ owners before ∧ id ∉ owners after := by
      rw [← named]
      simp only [List.nodup_append, List.nodup_cons, List.mem_append, List.mem_cons] at once ⊢
      grind
    refine ⟨⟨?_, bounded, ?_⟩, fun away => absurd (List.mem_map.mpr ⟨job, member, named⟩) away⟩
    · rw [pending, hand]
      exact fun waits => absurd waits absent.1
    · intro j inside owned
      rw [active, List.mem_append, List.mem_cons] at inside
      rcases inside with earlier | rfl | later
      · exact absurd (List.mem_map.mpr ⟨j, earlier, owned⟩) absent.2.1
      · rw [same.request, supplied, if_pos rfl, log, sent, so, produced]
      · exact absurd (List.mem_map.mpr ⟨j, later, owned⟩) absent.2.2
  · have nothing : streamed (.supplied id) s'.port.log = [] := by
      rw [log, emits.others _ (Ne.symm own), silent, streamed_nil]
    rw [nothing, List.append_nil]
    refine ⟨⟨?_, bounded, ?_⟩, fun _ => rfl⟩
    · rw [pending, hand]
      exact streaming.waiting
    · intro j inside owned
      rw [active] at inside
      rcases Lists.mem_of_around here inside with rfl | old
      · have so := streaming.active job member (by rw [← same.request]; exact owned)
        -- a request of that id with a sink would be this one
        have unsupplied : job.request.sink = false := by
          by_contra supplied
          refine own (origin.sink_eq_supplied.mpr ⟨by simpa using supplied, ?_⟩)
          rw [← same.request]
          exact owned
        rw [same.request, so, unsupplied]
        simp
      · exact streaming.active j old owned

/-- A job leaves the batch for good. -/
theorem drop (streaming : Streaming id text s q) {before after : List Job} {job : Job}
    (here : s.active = before ++ job :: after) (pending : s'.pending = s.pending)
    (hand : s'.pc.inHand = s.pc.inHand) (active : s'.active = before ++ after) :
    Streaming id text s' q := by
  have old : ∀ j ∈ s'.active, j ∈ s.active := by
    intro j inside
    rw [active] at inside
    exact Lists.mem_of_without here inside
  refine ⟨?_, fun j inside => streaming.bounded j (old j inside),
    fun j inside => streaming.active j (old j inside)⟩
  rw [pending, hand]
  exact streaming.waiting

/-- The job in hand, which has sent nothing, joins the batch. -/
theorem join (streaming : Streaming id text s q) (job : Job) (fresh : job.state.text = [])
    (zero : job.state.emitted = 0) (hand : s.pc.inHand.map Job.request = [job.request])
    (pending : s'.pending = s.pending) (empty : s'.pc.inHand = [])
    (active : s'.active = s.active ++ [job]) : Streaming id text s' q where
  waiting := by
    rw [pending, empty]
    intro waits
    apply streaming.waiting
    simp only [owners_nil, List.append_nil, List.mem_append] at waits ⊢
    tauto
  bounded j inside := by
    rw [active, List.mem_append, List.mem_singleton] at inside
    rcases inside with old | rfl
    · exact streaming.bounded j old
    · simp [SequenceState.Bounded, fresh, zero]
  active j inside owned := by
    rw [active, List.mem_append, List.mem_singleton] at inside
    rcases inside with old | rfl
    · exact streaming.active j old owned
    · have nothing : text = [] := by
        apply streaming.waiting
        have held : id ∈ owners s.pc.inHand := by
          rw [owners, ← owned, show (fun job : Job => job.request.id) = Request.id ∘ Job.request from rfl,
            ← List.map_map, hand]
          simp
        exact List.mem_append_right _ (List.mem_append_right _ held)
      rw [nothing]
      simp [SequenceState.emittedText, fresh]

/-- Nothing is sent to the sink. -/
theorem quiet (none : streamed (.supplied id) s'.port.log = []) (after : Streaming id text s' q') :
    Streaming id (text ++ streamed (.supplied id) s'.port.log) s' q' ∧
      (id ∉ owners s.active → streamed (.supplied id) s'.port.log = []) := by
  rw [none, List.append_nil]
  exact ⟨after, fun _ => rfl⟩

/-- A sampled token, whatever becomes of the job's blocks. -/
theorem accept {before after : List Job} {job job' : Job} {step : GenStep} {goesOn : Bool}
    {state : SequenceState} {port : Port σ} (streaming : Streaming id text s q) (layout : Layout w config s)
    (silent : s.port.log = []) (once : (requestIds q.queue ++ s.held).Nodup)
    (here : s.active = before ++ job :: after)
    (accepted : job.state.accept w step s.port = (goesOn, state, port))
    (active : s'.active = before ++ job' :: after) (request : job'.request = job.request)
    (became : job'.state = state)
    (log : streamed (.supplied id) s'.port.log = streamed (.supplied id) port.log)
    (pending : s'.pending = s.pending) (hand : s'.pc.inHand = s.pc.inHand) :
    Streaming id (text ++ streamed (.supplied id) s'.port.log) s' q ∧
      (id ∉ owners s.active → streamed (.supplied id) s'.port.log = []) := by
  subst became
  have member : job ∈ s.active := by rw [here]; simp
  have same : job.Same job' := ⟨request, (SequenceState.accept_same accepted).toSameOrigin⟩
  exact streaming.step layout silent once here same
    (SequenceState.accept_emits (streaming.bounded job member) accepted) log pending hand active

/-- What a move sends to the sink of a request is what the request's job emits in it. -/
theorem move (streaming : Streaming id text s q) (layout : Layout w config s)
    (silent : s.port.log = []) (once : (requestIds q.queue ++ s.held).Nodup)
    (guard : ∀ job ∈ s.evictee?, job.request.id = id → job.state.emitted = 0)
    (move : Move w config s q s' q') :
    Streaming id (text ++ streamed (.supplied id) s'.port.log) s' q' ∧
      (id ∉ owners s.active → streamed (.supplied id) s'.port.log = []) := by
  have nothing : s.port.log.filterMap (Event.deltaTo (.supplied id)) = [] := by rw [silent]; rfl
  have unchanged : ∀ jobs : List Job, List.Forall₂ Job.SameText jobs jobs := fun jobs =>
    List.forall₂_same.mpr fun j _ => .refl j
  have around : ∀ {before after : List Job} {job : Job} {table : BlockTable},
      s.active = before ++ job :: after →
      List.Forall₂ Job.SameText s.active (before ++ { job with blocks := table } :: after) := by
    intro before after job table here
    rw [here]
    exact Lists.forall₂_around .refl ⟨.withBlocks _ _, rfl, rfl⟩
  have built : List.Forall₂ Job.SameText s.active (buildBatch w.caps.nBatch config s.active).active :=
    forall₂_build .refl (fun _ _ => ⟨⟨rfl, SequenceState.takePrefillChunk_same _ _⟩, rfl, rfl⟩) _ _ _
  have fails : ∀ message (t : Continuous σ), List.Forall₂ Job.SameText t.active (t.failAll message).active :=
    fun message t => forall₂_failAll .refl
      (fun _ _ => ⟨⟨rfl, (SequenceState.fail_same _ _ _).toSameOrigin⟩, rfl, rfl⟩) message t
  have newborn : ∀ job, s.pc = .reserve job → job.state.text = [] ∧ job.state.emitted = 0 := by
    intro job pc
    obtain ⟨request, slot, slots, rfl, _⟩ := layout.hand job pc
    exact Scheduler.newJob_text w request slot
  cases move with
  -- what only moves requests about, or the place in the loop, sends nothing
  | take pc room front =>
    refine quiet (by simp [streamed, nothing]) (streaming.frame ?_ (unchanged _))
    simp only [pc, front, Pc.inHand, requestIds_append, requestIds_cons, requestIds_nil, List.mem_append,
      List.mem_cons, List.not_mem_nil, or_false]
    tauto
  | leave pc | finish pc | buildNothing pc | acceptEnd pc | acceptStray pc | sweepKeep pc
  | sweepResolve pc | resolveEnd pc | resolveGone pc | resolveRoom pc | reclaimGone pc | reclaimEnd pc
  | preemptGone pc | preemptEnd pc =>
    refine quiet (by simp [streamed, nothing]) (streaming.frame_jobs rfl rfl ?_ ?_)
    · simp [pc, Pc.inHand]
    · first | exact unchanged _ | exact built
  | sweepLoop pc =>
    refine quiet (by simp [streamed, nothing, Event.deltaTo]) (streaming.frame_jobs rfl rfl ?_ (unchanged _))
    simp [pc, Pc.inHand]
  | make pc next free begun =>
    refine quiet (by simp [streamed, Port.filterMap_begin _ begun, nothing, Event.deltaTo])
      (streaming.frame ?_ (unchanged _))
    simp only [pc, next, Pc.inHand, requestIds_cons, owners_cons, owners_nil, Scheduler.newJob_request,
      List.mem_append, List.mem_cons, List.not_mem_nil, or_false]
    tauto
  | makeCrash pc next free begun =>
    refine quiet (by simp [streamed, Port.filterMap_begin _ begun, nothing, Event.deltaTo])
      (streaming.frame ?_ (unchanged _))
    simp only [pc, next, Pc.inHand, requestIds_cons, owners_nil, List.mem_append, List.mem_cons,
      List.not_mem_nil, or_false]
    tauto
  | admitted pc =>
    refine quiet (by simp [streamed, nothing]) (streaming.frame_jobs rfl rfl ?_ (unchanged _))
    simp only [pc]
    split <;> rfl
  | giveUp pc short evicted | reclaimDonor pc here full evicted =>
    have adds := Scheduler.filterMap_reclaim (Event.deltaTo_of_internal (.supplied id)) evicted
    exact quiet (by simp [streamed, adds, nothing]) (streaming.frame_jobs rfl rfl rfl (unchanged _))
  | @reject job pc unfinished full alone =>
    have told := (SequenceState.finish_of_failed (w := w)
      (s := job.state.fail (s.rejectMessage job) .contextOverflow) (.inr rfl) s.port).2 (.supplied id)
    refine quiet ?_ (streaming.frame ?_ (unchanged _))
    · rw [silent, streamed_nil] at told
      rw [← told]
      simp only [Continuous.reject, streamed, Scheduler.filterMap_deliver, Port.filterMap_release,
        Event.deltaTo, Option.toList_none, List.append_nil]
    · simp only [Continuous.reject, Pc.inHand, owners_nil, List.mem_append]
      tauto
  | defer pc unfinished full busy =>
    refine quiet (by simp [Continuous.defer, streamed, nothing, Event.deltaTo])
      (streaming.frame ?_ (unchanged _))
    simp only [Continuous.defer, pc, busy, if_false, Pc.inHand, Job.reclaim_eq, requestIds_cons,
      owners_cons, owners_nil, List.mem_append, List.mem_cons, List.not_mem_nil, or_false]
    tauto
  | @placeFailed job pc failed =>
    obtain ⟨fresh, zero⟩ := newborn job pc
    refine quiet (by simp [Continuous.place, streamed, nothing, Event.deltaTo]) ?_
    exact streaming.join job fresh zero (by simp [pc, Pc.inHand]) rfl rfl rfl
  | @place job table blocks cache pc =>
    obtain ⟨fresh, zero⟩ := newborn job pc
    refine quiet (by simp [Continuous.place, streamed, nothing, Event.deltaTo]) ?_
    exact streaming.join { job with blocks := table } fresh zero (by simp [pc, Pc.inHand]) rfl rfl rfl
  | @adopt job table blocks cache hit port pc fits same caching found positive within copied =>
    obtain ⟨fresh, zero⟩ := newborn job pc
    refine quiet ?_ (streaming.join (inherit job table hit) fresh zero ?_ rfl rfl rfl)
    · simp [Continuous.place, streamed, Port.filterMap_copy _ copied, nothing, Event.deltaTo]
    · simp [pc, Pc.inHand, inherit]
  | adoptCrash pc fits same copied =>
    refine quiet (by simp [streamed, Port.filterMap_copy _ copied, nothing, Event.deltaTo])
      (streaming.frame ?_ (unchanged _))
    simp only [pc, Pc.inHand, owners_cons, owners_nil, List.mem_append, List.mem_cons, List.not_mem_nil,
      or_false]
    tauto
  | decode pc something returned =>
    refine quiet (by simp [streamed, Port.filterMap_decode _ returned, nothing, Event.deltaTo])
      (streaming.frame_jobs rfl rfl ?_ built)
    simp [pc, Pc.inHand]
  | @decodeFail message port pc something threw =>
    refine quiet (by simp [failAll, streamed, Port.filterMap_decode _ threw, nothing, Event.deltaTo])
      (streaming.frame_jobs rfl rfl ?_ (Lists.forall₂_trans (R := Job.SameText) .trans built
        (fails message { s with active := (buildBatch w.caps.nBatch config s.active).active })))
    simp [failAll, pc, Pc.inHand]
  | acceptFail pc =>
    refine quiet (by simp [failAll, streamed, nothing]) (streaming.frame_jobs rfl rfl ?_ (fails _ _))
    simp [failAll, pc, Pc.inHand]
  -- what is given a token or fails may send the text it has held back
  | @acceptFinish sampling step steps grewShort before job after state port pc here accepted =>
    have member : job ∈ s.active := by rw [here]; simp
    have emits := SequenceState.accept_emits (streaming.bounded job member) accepted
    refine streaming.step layout silent once here (same_finish (same_accept accepted) port)
      (emits.trans (SequenceState.finish_emits emits.bounded port)) rfl rfl ?_ rfl
    simp [pc, Pc.inHand]
  | acceptStarve pc here accepted | acceptGrow pc here accepted =>
    exact streaming.accept layout silent once here accepted rfl rfl rfl rfl rfl (by simp [pc, Pc.inHand])
  | acceptPublish pc here accepted grown published =>
    subst published
    refine streaming.accept layout silent once here accepted rfl rfl rfl ?_ rfl (by simp [pc, Pc.inHand])
    simp [streamed, Event.deltaTo]
  | @sweepRetire starved before job after pc here finished =>
    have member : job ∈ s.active := by rw [here]; simp
    -- the job says what it has to say while it is still in its place
    have said : Streaming id _ { s with
        port := (job.state.finish w s.port).2
        active := before ++ { job with state := (job.state.finish w s.port).1 } :: after } q ∧ _ :=
      streaming.step layout silent once here (same_finish (.refl job) s.port)
        (SequenceState.finish_emits (streaming.bounded job member) s.port) rfl rfl rfl rfl
    simp only [Scheduler.retire_streamed]
    exact ⟨said.1.drop rfl rfl rfl rfl, said.2⟩
  | @resolveFail starved before job after finished pc here large failed =>
    have member : job ∈ s.active := by rw [here]; simp
    subst failed
    have fails := SequenceState.fail_emits (streaming.bounded job member) (s.exhaustedMessage job)
      .contextOverflow s.port
    refine streaming.step layout silent once here ?_
      (fails.trans (SequenceState.finish_emits fails.bounded s.port)) rfl rfl ?_ rfl
    · exact ⟨rfl, ((SequenceState.fail_same _ _ _).trans (SequenceState.finish_same _ _)).toSameOrigin⟩
    · simp [pc, Pc.inHand]
  | reclaimGrow pc here | preemptGrow pc here =>
    refine quiet (by simp [streamed, nothing]) (streaming.frame_jobs rfl rfl ?_ (around here))
    simp [pc, Pc.inHand]
  | @preemptEvict slot starved job before victim after pc starving named full here unfinished other last =>
    have member : victim ∈ s.active := by rw [here]; simp
    have dropped : Streaming id text { s with active := before ++ after } q :=
      streaming.drop here rfl rfl rfl
    refine quiet (by simp [streamed, nothing, Event.deltaTo]) ⟨?_, dropped.bounded, dropped.active⟩
    intro waits
    by_cases owned : victim.request.id = id
    · -- the victim waits again: the guard says that it has sent nothing
      have evicted := evictee?_of_full layout pc starving named full here unfinished other last
      rw [streaming.active victim member owned]
      simp [SequenceState.emittedText, guard victim evicted owned]
    · apply streaming.waiting
      simp only [Job.reclaim_eq, requestIds_cons, List.mem_append, List.mem_cons] at waits ⊢
      rcases waits with queued | (here | pending) | inHand
      · exact .inl queued
      · exact absurd here.symm owned
      · exact .inr (.inl pending)
      · exact .inr (.inr inHand)

/-- What a request is delivered with is what its sink was sent. -/
theorem delivered (streaming : Streaming id text s q) (layout : Layout w config s)
    (silent : s.port.log = []) (move : Move w config s q s' q') {result : GenResult}
    (member : (id, result) ∈ s'.port.log.filterMap Event.result?) :
    ∃ request ∈ s.requests, request.id = id ∧
      (request.sink = true → text ++ streamed (.supplied id) s'.port.log = result.text) := by
  obtain ⟨results, all⟩ : ∃ results, s'.port.log.filterMap Event.result? = results := ⟨_, rfl⟩
  have delivers := move.delivers silent
  rw [all] at member delivers
  cases delivers with
  | nothing => cases member
  | @retired before job after starved pc here finished port =>
    cases List.mem_singleton.mp member
    have active : job ∈ s.active := by rw [here]; simp
    refine ⟨job.request, ?_, rfl, fun supplied => ?_⟩
    · exact List.mem_append_right _ (List.mem_append_right _ (List.mem_map_of_mem active))
    · have own := (layout.origin job active).sink_eq_supplied.mpr ⟨supplied, rfl⟩
      obtain ⟨delta, produced, sent⟩ :=
        (SequenceState.finish_emits (w := w) (streaming.bounded job active) s.port).own
      rw [silent, streamed_nil, List.nil_append, own] at sent
      have so := streaming.active job active rfl
      rw [supplied, if_pos rfl] at so
      rw [port, Scheduler.retire_streamed, sent, so]
      exact produced.symm
  | @rejected job pc unfinished full alone port =>
    cases List.mem_singleton.mp member
    refine ⟨job.request, ?_, rfl, fun _ => ?_⟩
    · simp [Continuous.requests, pc, Pc.inHand]
    · have nothing : text = [] := streaming.waiting (by simp [pc, Pc.inHand])
      obtain ⟨request, slot, slots, rfl, _⟩ := layout.hand job pc
      have told := SequenceState.finish_of_failed (w := w)
        (s := (Scheduler.newJob w request slot).state.fail
          (s.rejectMessage (Scheduler.newJob w request slot)) .contextOverflow) (.inr rfl) s.port
      have sent : streamed (.supplied (Scheduler.newJob w request slot).request.id) s'.port.log = [] := by
        rw [port, ← streamed_nil (.supplied (Scheduler.newJob w request slot).request.id), ← silent,
          ← told.2]
        simp only [Continuous.reject, streamed, Scheduler.filterMap_deliver, Port.filterMap_release,
          Event.deltaTo, Option.toList_none, List.append_nil]
      rw [nothing, sent]
      refine Eq.symm (told.1.trans ?_)
      simp [SequenceState.emittedText, SequenceState.fail, SequenceState.stopWith]

end Streaming

end Continuous

namespace Server

variable {σ : Type} {w : World σ} {config : SchedulerConfig} {capacity : Nat} {world : σ}
variable {past : List Event} {s : Server (Continuous σ)}

/-- The request is not preempted in the next step, unless it has sent nothing yet. -/
def SparesStream (id : Nat) (s : Server (Continuous σ)) : Prop :=
  ∀ job ∈ s.thread.evictee?, job.request.id = id → job.state.emitted = 0

instance (id : Nat) (s : Server (Continuous σ)) : Decidable (s.SparesStream id) :=
  inferInstanceAs (Decidable (∀ job ∈ s.thread.evictee?, job.request.id = id → job.state.emitted = 0))

theorem streaming_run {id : Nat}
    (run : ((continuous w config capacity world).guarded fun s _ _ => s.SparesStream id).Run past s) :
    s.thread.Streaming id (streamed (.supplied id) past) s.queue ∧
      (id ∉ requestIds s.accepted → streamed (.supplied id) past = []) ∧
      ∀ result, Event.setValue id result ∈ past → ∀ request ∈ s.accepted, request.id = id →
        request.sink = true → streamed (.supplied id) past = result.text := by
  -- pushing a request needs to know that a fresh id was not delivered, so the run comes along
  induction run with
  | start initial =>
    cases initial
    refine ⟨⟨?_, ?_, ?_⟩, ?_, ?_⟩ <;> simp [Continuous.start]
  | @next past s events t earlier step ih =>
    obtain ⟨streaming, fresh, delivered⟩ := ih
    obtain ⟨step, guard⟩ := step
    have run := earlier.of_guarded
    cases step with
    | push request unused =>
      rw [List.append_nil]
      have new : id ∉ requestIds (s.push request).accepted → id ∉ requestIds s.accepted :=
        fun out inside => out (List.map_subset _ (push_accepted_subset request s) inside)
      refine ⟨?_, fun out => fresh (new out), ?_⟩
      · refine ⟨?_, streaming.bounded, streaming.active⟩
        intro waits
        by_cases here : request.id = id
        · exact fresh (here ▸ unused)
        · apply streaming.waiting
          simp only [push, RequestQueue.tryPush] at waits
          split at waits
          · exact waits
          · simp only [requestIds_append, requestIds_cons, requestIds_nil, List.mem_append,
              List.mem_singleton] at waits ⊢
            rcases waits with (queued | same) | taken
            · exact .inl queued
            · exact absurd same.symm here
            · exact .inr taken
      · intro result done r member named supplied
        refine delivered result done r ?_ named supplied
        have old := (accepted_of_fulfilled run done).1
        simp only [push] at member
        split at member
        · rcases List.mem_append.mp member with earlier | same
          · exact earlier
          · rw [List.mem_singleton.mp same] at named
            exact absurd old (named ▸ unused)
        · exact member
    | close =>
      rw [List.append_nil]
      exact ⟨⟨streaming.waiting, streaming.bounded, streaming.active⟩, fresh, delivered⟩
    | run stepped =>
      have settled := settled_run run
      obtain ⟨s', move, rfl, rfl⟩ := Continuous.step_move
        (config.construct_maxBatchSize_pos w.caps) settled.layout stepped
      have once := (List.nodup_append.mp (once_run run)).1
      obtain ⟨after, silence⟩ := streaming.move settled.layout settled.silent once guard move
      have known := known_run run
      have away : id ∉ s.thread.held → streamed (.supplied id) s'.port.log = [] := by
        intro out
        apply silence
        exact fun inside => out (List.mem_append_right _ inside)
      rw [streamed_append]
      refine ⟨⟨after.waiting, after.bounded, after.active⟩, ?_, ?_⟩
      · intro out
        have unheld : id ∉ s.thread.held := by
          intro inside
          have counts := (counts_run run).2 id
          have positive := List.count_pos_iff.mpr inside
          have accepted : id ∈ requestIds s.accepted := List.count_pos_iff.mp (by omega)
          exact out accepted
        rw [fresh out, away unheld, List.append_nil]
      · intro result done r member named supplied
        rcases List.mem_append.mp done with old | new
        · rw [away (accepted_of_fulfilled run old).2.2, List.append_nil]
          exact delivered result old r member named supplied
        · obtain ⟨request, taken, same, text⟩ := streaming.delivered settled.layout settled.silent move
            (Event.mem_results.mpr new)
          -- ids are not accepted twice, so this is the request
          have identical : request = r := List.inj_on_of_nodup_map (counts_run run).1
            (known request (List.mem_append_right _ taken)) member (same.trans named.symm)
          exact text (identical ▸ supplied)

end Server

/-- In every run in which request `id` is never preempted after it has sent text, what its own
    sink was sent over its whole life is the text its promise is fulfilled with. -/
theorem streamed_eq_delivered {σ : Type} (w : World σ) (config : SchedulerConfig) (capacity : Nat)
    (world : σ) (past : List Event) (s : Server (Continuous σ)) (request : Request)
    (run : ((Server.continuous w config capacity world).guarded fun s _ _ =>
      s.SparesStream request.id).Run past s)
    (accepted : request ∈ s.accepted) (own : request.sink = true) (result : GenResult)
    (delivered : Event.setValue request.id result ∈ past) :
    streamed (.supplied request.id) past = result.text :=
  (Server.streaming_run run).2.2 result delivered request accepted rfl own

/-- Two slots over a pool of blocks of one token, without prefix caching. -/
def SchedulerConfig.pair (blocks : Nat) : SchedulerConfig :=
  { maxBatchSize := 2, blockSize := 1, kvBlocks := blocks, prefixCaching := false }

/-- Two requests with sinks in a pool large enough for both. -/
theorem streamed_eq_delivered_letter :
    ∃ past s request result,
      ((Server.continuous Script.letter.world (.pair 10) 4 fun _ => none).guarded fun s _ _ =>
        s.SparesStream request.id).Run past s ∧
      request ∈ s.accepted ∧ request.sink = true ∧ Event.setValue request.id result ∈ past ∧
      result.text = [97, 97, 97, 97] ∧ streamed (.supplied request.id) past = result.text := by
  obtain ⟨past, s, run, accepted, ⟨id, result⟩, delivered, rfl, text⟩ : ∃ past s,
      ((Server.continuous Script.letter.world (.pair 10) 4 fun _ => none).guarded fun s _ _ =>
        s.SparesStream 1).Run past s ∧
      ({ id := 1, spec := { prompt := [1], maxTokens := 4 }, sink := true } ∈ s.accepted ∧
        ∃ d ∈ past.filterMap Event.result?, d.1 = 1 ∧ d.2.text = [97, 97, 97, 97]) :=
    Server.exists_guarded ([.push { id := 0, spec := { prompt := [1], maxTokens := 4 }, sink := true },
      .push { id := 1, spec := { prompt := [1], maxTokens := 4 }, sink := true }] ++
      List.replicate 69 .run) rfl rfl (by decide +kernel)
  have done := Event.mem_results.mp delivered
  exact ⟨past, s, _, result, run, accepted, rfl, done, text,
    streamed_eq_delivered _ _ _ _ past s _ run accepted rfl result done⟩

/-- The same two requests with two blocks less.  Request 1 is preempted after it has sent four
    bytes, runs again from the start, and its sink is sent the four bytes a second time. -/
theorem streamed_twice_letter :
    ∃ past s result,
      (Server.continuous Script.letter.world (.pair 8) 4 fun _ => none).Run past s ∧
      { id := 1, spec := { prompt := [1], maxTokens := 4 }, sink := true } ∈ s.accepted ∧
      Event.setValue 1 result ∈ past ∧ result.text = [97, 97, 97, 97] ∧
      streamed (.supplied 1) past = [97, 97, 97, 97, 97, 97, 97, 97] ∧
      streamed (.supplied 1) past ≠ result.text := by
  obtain ⟨past, s, run, accepted, ⟨id, result⟩, delivered, rfl, text, sent⟩ : ∃ past s,
      (Server.continuous Script.letter.world (.pair 8) 4 fun _ => none).Run past s ∧
      ({ id := 1, spec := { prompt := [1], maxTokens := 4 }, sink := true } ∈ s.accepted ∧
        ∃ d ∈ past.filterMap Event.result?, d.1 = 1 ∧ d.2.text = [97, 97, 97, 97] ∧
          streamed (.supplied 1) past = [97, 97, 97, 97, 97, 97, 97, 97]) :=
    Server.exists_run ([.push { id := 0, spec := { prompt := [1], maxTokens := 4 }, sink := true },
      .push { id := 1, spec := { prompt := [1], maxTokens := 4 }, sink := true }] ++
      List.replicate 115 .run) rfl rfl (by decide +kernel)
  refine ⟨past, s, result, run, accepted, Event.mem_results.mp delivered, text, sent, ?_⟩
  rw [sent, text]
  decide

end MicroVllm
