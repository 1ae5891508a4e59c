import MicroVllm.Scheduler.Books
import MicroVllm.Scheduler.StaticSeats

/-! # Who is cancelled

The scheduler asks a sink whether its request has been cancelled after each token that does not end the
sequence, and nowhere else.  If every "yes" it gets is for a request whose flag is up, then only such
requests are ever in service with, or delivered with, the reason `cancelled`.
-/

namespace MicroVllm

variable {σ : Type}

/-- The answer to `cancelled` that accepting a token rests on, if it does. -/
def SequenceState.asks (w : World σ) (s : SequenceState) (step : GenStep) (port : Port σ) : Option Bool :=
  if s.finished ∨ step.isEog ∨ s.usage.completionTokens ≥ s.spec.maxTokens.toNat then none
  else
    let s := s.append (w.piece step.token)
    match earliestStop s.text s.spec.stop with
    | some _ => none
    | none =>
      let flushed := s.flushUpto w s.safePrefix port
      some (w.cancelled flushed.1.sink flushed.2.world)

/-- The same for the job in a slot. -/
def asksFor (w : World σ) (slots : List Nat) (steps : List GenStep) (jobs : List Job) (port : Port σ) :
    Option (Nat × Bool) :=
  match slots, steps with
  | slot :: _, step :: _ =>
    match findJob slot jobs with
    | some job => (job.state.asks w step port).map fun answer => (job.request.id, answer)
    | none => none
  | _, _ => none

def Continuous.asks (w : World σ) (s : Continuous σ) : Option (Nat × Bool) :=
  match s.pc with
  | .accept sampling steps _ => asksFor w sampling steps s.active s.port
  | _ => none

def Static.asks (w : World σ) (s : Static σ) : Option (Nat × Bool) :=
  match s.pc with
  | .acceptPrefill _ submitted steps => asksFor w submitted steps s.jobs s.port
  | .acceptDecode running steps => asksFor w running steps s.jobs s.port
  | _ => none

variable {w : World σ} {config : SchedulerConfig} {flags : Nat → Bool}

/-- A sequence is cancelled if it was before, or if its sink says so. -/
theorem SequenceState.accept_asks {s s' : SequenceState} {step : GenStep} {port port' : Port σ} {goesOn : Bool}
    (accepted : s.accept w step port = (goesOn, s', port')) (cancelled : s'.reason = .cancelled) :
    s.reason = .cancelled ∨ s.asks w step port = some true := by
  unfold accept at accepted
  split at accepted
  · cases accepted
    exact .inl cancelled
  · rename_i unfinished
    split at accepted
    · cases accepted
      cases cancelled
    · rename_i more
      split at accepted
      · cases accepted
        cases cancelled
      · rename_i left
        simp only at accepted
        split at accepted
        · cases accepted
          cases cancelled
        · rename_i clear
          have asked : s.asks w step port = some (w.cancelled
              ((s.append (w.piece step.token)).flushUpto w (s.append (w.piece step.token)).safePrefix port).1.sink
              ((s.append (w.piece step.token)).flushUpto w
                (s.append (w.piece step.token)).safePrefix port).2.world) := by
            unfold asks
            rw [if_neg (by simp [unfinished, more, left])]
            simp only [clear]
          split at accepted
          · rename_i said
            exact .inr (asked.trans (congrArg some said))
          · cases accepted
            rw [flushUpto_state] at cancelled
            exact .inl cancelled

/-! ## Jobs -/

/-- Of these jobs, those that are cancelled have their flag up. -/
def Flagged (flags : Nat → Bool) (jobs : List Job) : Prop :=
  ∀ job ∈ jobs, job.state.reason = .cancelled → flags job.request.id = true

namespace Flagged

variable {jobs jobs' before after : List Job} {job job' : Job}

theorem nil : Flagged flags [] := by
  simp [Flagged]

theorem mono (flagged : Flagged flags jobs) (fewer : jobs' ⊆ jobs) : Flagged flags jobs' :=
  fun job member => flagged job (fewer member)

/-- One job has changed. -/
theorem replace (flagged : Flagged flags (before ++ job :: after))
    (changed : job'.state.reason = .cancelled → flags job'.request.id = true) :
    Flagged flags (before ++ job' :: after) := by
  intro j member
  rcases List.mem_append.mp member with earlier | rest
  · exact flagged j (List.mem_append_left _ earlier)
  · rcases List.mem_cons.mp rest with rfl | later
    · exact changed
    · exact flagged j (List.mem_append_right _ (List.mem_cons_of_mem _ later))

theorem snoc (flagged : Flagged flags jobs) (changed : job.state.reason = .cancelled → flags job.request.id = true) :
    Flagged flags (jobs ++ [job]) := by
  intro j member
  rcases List.mem_append.mp member with old | new
  · exact flagged j old
  · cases List.mem_singleton.mp new
    exact changed

/-- Each job has changed, but for its number and for the reason, unless that is not `cancelled`. -/
theorem relate (flagged : Flagged flags jobs) {R : Job → Job → Prop} (related : List.Forall₂ R jobs jobs')
    (kept : ∀ job job', R job job' → job'.state.reason = .cancelled →
      job'.request = job.request ∧ job.state.reason = .cancelled) : Flagged flags jobs' := by
  intro job' member cancelled
  obtain ⟨job, inside, relation⟩ := Lists.exists_of_forall₂_right related member
  obtain ⟨request, before⟩ := kept job job' relation cancelled
  rw [request]
  exact flagged job inside before

end Flagged

/-- Of these results, those that are cancelled have their flag up. -/
def FlaggedLog (flags : Nat → Bool) (past : List Event) : Prop :=
  ∀ id result, .setValue id result ∈ past → result.reason = .cancelled → flags id = true

theorem FlaggedLog.nil : FlaggedLog flags [] := by
  simp [FlaggedLog]

theorem FlaggedLog.append {past log : List Event} (flagged : FlaggedLog flags past)
    (more : ∀ delivery ∈ log.filterMap Event.result?, delivery.2.reason = .cancelled → flags delivery.1 = true) :
    FlaggedLog flags (past ++ log) := by
  intro id result delivered cancelled
  rcases List.mem_append.mp delivered with old | new
  · exact flagged id result old cancelled
  · exact more _ (Event.mem_results.mpr new) cancelled

theorem SequenceState.finish_reason (s : SequenceState) (port : Port σ) : (s.finish w port).1.reason = s.reason := by
  rw [finish_state, closed_reason]

/-- The job whose token is accepted. -/
theorem asksFor_around {before after jobs : List Job} {job : Job} {step : GenStep} {answer : Bool} {port : Port σ}
    (slots : List Nat) (steps : List GenStep) (nodup : (seqs jobs).Nodup) (here : jobs = before ++ job :: after)
    (said : job.state.asks w step port = some answer) :
    asksFor w (job.state.seq :: slots) (step :: steps) jobs port = some (job.request.id, answer) := by
  subst here
  simp only [asksFor, Continuous.findJob_around nodup, said, Option.map_some]

theorem newJob_reason (request : Request) (slot : Nat) :
    (Scheduler.newJob w request slot).state.reason ≠ .cancelled := by
  simp only [Scheduler.newJob, Scheduler.checkContext]
  split <;> (intro cancelled; cases cancelled)

theorem Served.cancelled {job job' : Job} {items : List BatchItem} (served : Served job job' items)
    (cancelled : job'.state.reason = .cancelled) :
    job'.request = job.request ∧ job.state.reason = .cancelled := by
  cases served <;> exact ⟨rfl, cancelled⟩

/-- A failing step cancels nobody. -/
theorem Flagged.failed {jobs : List Job} (flagged : Flagged flags jobs) (message : String) :
    Flagged flags (jobs.map fun job =>
      if job.state.finished then job else { job with state := job.state.fail message }) := by
  intro job' member cancelled
  obtain ⟨job, inside, rfl⟩ := List.mem_map.mp member
  split at cancelled
  · rename_i finished
    rw [if_pos finished]
    exact flagged job inside cancelled
  · cases cancelled

/-! ## Continuous mode -/

namespace Continuous

variable {s s' : Continuous σ} {q q' : RequestQueue}

theorem asks_around {before after : List Job} {job : Job} {slots grewShort : List Nat} {step : GenStep}
    {steps : List GenStep} {answer : Bool} (layout : Layout w config s)
    (pc : s.pc = .accept (job.state.seq :: slots) (step :: steps) grewShort)
    (here : s.active = before ++ job :: after) (said : job.state.asks w step s.port = some answer) :
    s.asks w = some (job.request.id, answer) := by
  simp only [asks, pc]
  exact asksFor_around _ _ layout.nodup here said

theorem Move.flagged (move : Move w config s q s' q') (layout : Layout w config s)
    (flagged : Flagged flags s.crew) (heeds : ∀ id, s.asks w = some (id, true) → flags id = true) :
    Flagged flags s'.crew := by
  have active : Flagged flags s.active := flagged.mono (List.subset_append_left _ _)
  -- the job whose token is accepted
  have accepts : ∀ {sampling step steps grewShort before job after goesOn state port},
      s.pc = .accept (job.state.seq :: sampling) (step :: steps) grewShort → s.active = before ++ job :: after →
      job.state.accept w step s.port = (goesOn, state, port) → state.reason = .cancelled →
      flags job.request.id = true := by
    intro sampling step steps grewShort before job after goesOn state port pc here accepted cancelled
    rcases SequenceState.accept_asks accepted cancelled with already | said
    · exact active job (by rw [here]; simp) already
    · exact heeds _ (asks_around layout pc here said)
  have hand : ∀ {job}, s.pc = .reserve job → job.state.reason = .cancelled → flags job.request.id = true :=
    fun pc => flagged _ (by simp [crew, pc, Pc.inHand])
  have idle : ∀ {t : Continuous σ}, t.pc.inHand = [] → Flagged flags t.active → Flagged flags t.crew := by
    intro t hand flagged
    rwa [crew_of_none hand]
  have built : Flagged flags (buildBatch w.caps.nBatch config s.active).active :=
    active.relate (buildBatch_served w.caps.nBatch config layout.nodup) fun _ _ served => served.cancelled
  cases move with
  | take | giveUp | reclaimDonor => exact flagged
  | leave | finish | makeCrash | adoptCrash | acceptEnd | acceptStray | sweepKeep | sweepResolve | sweepLoop
  | resolveEnd | resolveGone | resolveRoom | reclaimGone | reclaimEnd | preemptGone | preemptEnd | reject =>
    exact idle rfl active
  | admitted | defer => exact idle (by dsimp only [Continuous.defer]; split <;> rfl) active
  | make => exact active.snoc fun cancelled => absurd cancelled (newJob_reason _ _)
  | placeFailed pc | place pc | adopt pc =>
    have fair := hand pc
    exact idle rfl (active.snoc fun cancelled => fair cancelled)
  | buildNothing | decode => exact idle rfl built
  | decodeFail => exact idle rfl (built.failed _)
  | acceptFail => exact idle rfl (active.failed _)
  | acceptFinish pc here accepted =>
    have fair := accepts pc here accepted
    rw [here] at active
    refine idle rfl (active.replace fun cancelled => fair ?_)
    rwa [SequenceState.finish_reason] at cancelled
  | acceptStarve pc here accepted | acceptGrow pc here accepted =>
    have fair := accepts pc here accepted
    rw [here] at active
    exact idle rfl (active.replace fun cancelled => fair cancelled)
  | acceptPublish pc here accepted _ published =>
    subst published
    have fair := accepts pc here accepted
    rw [here] at active
    exact idle rfl (active.replace fun cancelled => fair cancelled)
  | sweepRetire pc here | preemptEvict pc _ _ _ here =>
    rw [here] at active
    refine idle (by simp [pc, Pc.inHand]) (active.mono ?_)
    simp
  | resolveFail pc here _ failed =>
    rw [here] at active
    refine idle rfl (active.replace fun cancelled => ?_)
    rw [← failed, SequenceState.finish_reason] at cancelled
    cases cancelled
  | reclaimGrow pc here | preemptGrow pc here =>
    have fair := active _ (here ▸ List.mem_append_right _ List.mem_cons_self)
    rw [here] at active
    exact idle rfl (active.replace fun cancelled => fair cancelled)

theorem Delivers.flagged {results : List (Nat × GenResult)} (delivers : Delivers w config s s' results)
    (flagged : Flagged flags s.crew) :
    ∀ delivery ∈ results, delivery.2.reason = .cancelled → flags delivery.1 = true := by
  intro delivery member cancelled
  cases delivers with
  | nothing => cases member
  | retired pc here =>
    cases List.mem_singleton.mp member
    refine flagged _ (by simp [crew, here]) ?_
    rwa [Job.result, SequenceState.finish_reason] at cancelled
  | rejected =>
    cases List.mem_singleton.mp member
    rw [Job.result, SequenceState.finish_reason] at cancelled
    cases cancelled

end Continuous

/-! ## Static mode -/

namespace Static

variable {s s' : Static σ} {q q' : RequestQueue}

theorem flagged_settleAll {jobs : List Job} (flagged : Flagged flags jobs) (message : String) (port : Port σ) :
    Flagged flags (settleAll w message jobs port).1 := by
  refine flagged.relate (settleAll_settles message jobs port) ?_
  rintro job job' rfl cancelled
  rw [SequenceState.closed_reason] at cancelled
  split at cancelled
  · exact ⟨rfl, cancelled⟩
  · cases cancelled

theorem flagged_sliced {jobs : List Job} (flagged : Flagged flags jobs) (i nBatch : Nat) :
    Flagged flags (jobs.take i ++ (buildSlice nBatch 0 false (jobs.drop i)).1) := by
  refine flagged.relate (R := fun job job' => job'.request = job.request ∧ job'.state.reason = job.state.reason)
    (sliced_relates (fun _ => ⟨rfl, rfl⟩) (fun _ _ => ⟨rfl, rfl⟩) i nBatch jobs) ?_
  rintro job job' ⟨request, reason⟩ cancelled
  exact ⟨request, reason ▸ cancelled⟩

theorem Move.flagged (move : Move w config s q s' q') (layout : s.Layout)
    (flagged : Flagged flags s.jobs) (heeds : ∀ id, s.asks w = some (id, true) → flags id = true) :
    Flagged flags s'.jobs := by
  have accepts : ∀ {leave stay slots step steps before job after goesOn state port}, AcceptLoop leave stay →
      s.pc = stay (job.state.seq :: slots) (step :: steps) → s.jobs = before ++ job :: after →
      job.state.accept w step s.port = (goesOn, state, port) → state.reason = .cancelled →
      flags job.request.id = true := by
    intro leave stay slots step steps before job after goesOn state port loop pc here accepted cancelled
    rcases SequenceState.accept_asks accepted cancelled with already | said
    · exact flagged job (by rw [here]; simp) already
    · apply heeds
      have asked := asksFor_around slots steps layout.nodup here said
      cases loop <;> simpa only [asks, pc] using asked
  cases move with
  | collect | finish | made | makeCrash | prefillEnd | decodeEnd | decode | acceptEnd | acceptStray =>
    exact flagged
  | form | deliverEnd => exact .nil
  | makeFailed pc begun made | make pc begun made =>
    subst made
    exact flagged.snoc fun cancelled => absurd cancelled (newJob_reason _ _)
  | makeFull => exact flagged.snoc fun cancelled => by cases cancelled
  | prefillSkip pc more sliced | prefill pc more sliced =>
    subst sliced
    exact flagged_sliced flagged _ _
  | prefillFail pc more sliced =>
    subst sliced
    exact flagged_settleAll (flagged_sliced flagged _ _) _ _
  | decodeFail | acceptFail => exact flagged_settleAll flagged _ _
  | acceptGoOn loop pc here accepted =>
    have fair := accepts loop pc here accepted
    rw [here] at flagged
    exact flagged.replace fun cancelled => fair cancelled
  | acceptFinish loop pc here accepted notified =>
    subst notified
    have fair := accepts loop pc here accepted
    rw [here] at flagged
    refine flagged.replace fun cancelled => fair ?_
    rwa [SequenceState.finish_reason] at cancelled
  | deliver pc here notified =>
    subst notified
    have fair := flagged _ (here ▸ List.mem_append_right _ List.mem_cons_self)
    rw [here] at flagged
    refine flagged.replace fun cancelled => fair ?_
    rwa [SequenceState.finish_reason] at cancelled

theorem Delivers.flagged {results : List (Nat × GenResult)} (delivers : Delivers w s results)
    (flagged : Flagged flags s.jobs) :
    ∀ delivery ∈ results, delivery.2.reason = .cancelled → flags delivery.1 = true := by
  intro delivery member cancelled
  cases delivers with
  | nothing => cases member
  | delivered pc here =>
    cases List.mem_singleton.mp member
    refine flagged _ (by simp [here]) ?_
    rwa [Job.result, SequenceState.finish_reason] at cancelled

end Static

/-! ## Along a run -/

namespace Server

variable {capacity : Nat} {world : σ} {past : List Event}

/-- A step of the thread that finds a request cancelled finds its flag up. -/
def Heeds {τ : Type} (asks : τ → Option (Nat × Bool)) (flags : Nat → Bool) (s : Server τ) (_ : List Event)
    (t : Server τ) : Prop :=
  ∀ id, asks s.thread = some (id, true) → t.thread = s.thread ∨ flags id = true

/-- If the moves of a thread keep its jobs flagged and deliver no others as cancelled, so does every run. -/
theorem Moves.flagged_run {τ : Type} {k : Moves τ} {thread : τ} (settled : k.Settled thread) (jobs : τ → List Job)
    {asks : τ → Option (Nat × Bool)} (none : jobs thread = [])
    (kept : ∀ {t u q q'}, k.Settled t → k.Move t q u q' → Flagged flags (jobs t) →
      (∀ id, asks t = some (id, true) → flags id = true) → Flagged flags (jobs (k.quiet u)))
    (delivers : ∀ {t u q q'}, k.Settled t → k.Move t q u q' → Flagged flags (jobs t) →
      ∀ delivery ∈ (k.log u).filterMap Event.result?, delivery.2.reason = .cancelled → flags delivery.1 = true)
    {s : Server τ} (run : ((machine k.step thread capacity).guarded (Heeds asks flags)).Run past s) :
    Flagged flags (jobs s.thread) ∧ FlaggedLog flags past := by
  refine thread_invariant settled ?_ ?_ run
  · exact ⟨by rw [none]; exact .nil, .nil⟩
  · rintro past s u q _ settled ⟨flagged, log⟩ move heeds
    refine ⟨?_, log.append (delivers settled move flagged)⟩
    by_cases stays : k.quiet u = s.thread
    · show Flagged flags (jobs (k.quiet u))
      rwa [stays]
    · exact kept settled move flagged fun id asked => (heeds id asked).resolve_left stays

theorem flagged_run {s : Server (Continuous σ)}
    (run : ((continuous w config capacity world).guarded (Heeds (Continuous.asks w) flags)).Run past s) :
    Flagged flags s.thread.crew ∧ FlaggedLog flags past :=
  Moves.flagged_run (settled_start w config world) Continuous.crew rfl
    (fun settled move => (Continuous.Move.flagged move settled.layout :))
    (fun settled move => (Continuous.Move.delivers move settled.silent).flagged) run

theorem static_flagged_run {s : Server (Static σ)}
    (run : ((static w config capacity world).guarded (Heeds (Static.asks w) flags)).Run past s) :
    Flagged flags s.thread.jobs ∧ FlaggedLog flags past :=
  Moves.flagged_run (settledStatic_start w config world) Static.jobs rfl
    (fun settled move => (Static.Move.flagged move settled.layout :))
    (fun settled move => (Static.Move.delivers move settled.silent).flagged) run

end Server

end MicroVllm
