import MicroVllm.Generator
import MicroVllm.Scheduler.Phases
import MicroVllm.Scheduler.Streams

/-! # A request among others gets what it would get alone

Without prefix caching, what a request is delivered with is the outcome of its generation on its
own, whatever the scheduler did in between: batches shared with other requests, prompts cut into
chunks, slots used again, restarts after a preemption.  The generator that serves one request at
a time comes to the same outcome, since there is only one.
-/

namespace MicroVllm

section Outcomes

variable {σ : Type} {w : World σ} {S : Sampler} {L : Nat → Prop}

/-- The request was delivered with what its generation comes to. -/
def GenResult.Alone (w : World σ) (S : Sampler) (spec : RequestSpec) (result : GenResult) : Prop :=
  ∃ final, Concludes w (spec.Sampled w S) (spec.opening w) final ∧ result.text = final.emittedText ∧
    result.reason = final.reason ∧ result.usage.promptTokens = final.usage.promptTokens ∧
    result.usage.completionTokens = final.usage.completionTokens

/-- The result failed: nothing is said about the text that came before. -/
def GenResult.Failed (result : GenResult) : Prop :=
  result.reason = .error ∨ result.reason = .contextOverflow

/-- There is only one outcome when the engine has no choice. -/
theorem GenResult.Alone.agree {spec : RequestSpec} {result result' : GenResult}
    (functional : Determines (spec.Sampled w S)) (alone : result.Alone w S spec)
    (alone' : result'.Alone w S spec) :
    result'.text = result.text ∧ result'.reason = result.reason ∧
      result'.usage.promptTokens = result.usage.promptTokens ∧
      result'.usage.completionTokens = result.usage.completionTokens := by
  obtain ⟨final, concludes, text, reason, prompt, completion⟩ := alone
  obtain ⟨final', concludes', text', reason', prompt', completion'⟩ := alone'
  cases concludes.det functional concludes'
  exact ⟨text'.trans text.symm, reason'.trans reason.symm, prompt'.trans prompt.symm,
    completion'.trans completion.symm⟩

/-- A job with a prompt that has ended without failing, and was not cancelled, ended as its generation does. -/
theorem Job.Ended.alone {job : Job} (ended : job.Ended w (S.choice w) L)
    (prompt : w.tokenize job.request.spec.prompt true ≠ [])
    (quiet : job.state.reason = .cancelled → w.NeverCancels)
    (unfailed : ¬ { job with state := job.state.closed }.result.Failed) :
    { job with state := job.state.closed }.result.Alone w S job.request.spec := by
  have reason : { job with state := job.state.closed }.result.reason = job.state.core.closed.reason := by
    rw [SequenceState.closed_reason]
    exact SequenceState.closed_reason _
  cases ended with
  | stopped stopped =>
    rcases stopped with error | ⟨cancelled, sink, world, heard⟩
    · exact absurd (.inl ((SequenceState.closed_reason _).trans error)) unfailed
    · rw [quiet cancelled] at heard
      cases heard
  | refused _ state =>
    exact absurd (.inr (reason.trans (by rw [state, SequenceState.closed_reason]; rfl))) unfailed
  | overflowed _ _ _ state =>
    exact absurd (.inr (reason.trans (by rw [state, SequenceState.closed_reason]; rfl))) unfailed
  | concluded _ concludes =>
    rw [S.choice_eq prompt] at concludes
    refine ⟨job.state.core.closed, concludes, ?_, reason, ?_, ?_⟩
    · rw [← SequenceState.closed_core]
      rfl
    · rw [← SequenceState.closed_core]
      rfl
    · rw [← SequenceState.closed_core]
      rfl

/-- What the engine answers is what it samples from the contents of the slot. -/
theorem Samples.honest (samples : Samples w) (past : List Event) (port : Port σ) :
    Continuous.Honest samples.tracker past (fun slot => samples.sampler slot.params slot.cells) port := by
  intro items steps port' returned i item step asked answered slot held
  obtain ⟨result, world, called⟩ : ∃ result world, w.decode items port.world = (result, world) :=
    ⟨_, _, rfl⟩
  simp only [Port.decode, called, Prod.mk.injEq] at returned
  obtain ⟨rfl, rfl⟩ := returned
  obtain ⟨_, answers⟩ := samples.decodes port.world world items steps called
  obtain ⟨item', asked', sampled⟩ := Lists.getElem?_of_forall₂ answers answered
  rw [asked] at asked'
  cases asked'
  exact sampled slot held

end Outcomes

namespace Server

variable {σ : Type} {w : World σ} {config : SchedulerConfig} {capacity : Nat} {world : σ}
variable {past : List Event} {s : Server (Continuous σ)} {S : Sampler}

/-- Every result that is not a failure is that of a request on its own, if it has a prompt, unless it was
    cancelled. -/
theorem alone_run (T : Tracker w .token) (off : config.prefixCaching = false)
    (honest : ∀ past port, Continuous.Honest T past (fun slot => S slot.params slot.cells) port)
    (run : (continuous w config capacity world).Run past s) :
    ∀ id result, Event.setValue id result ∈ past → ¬ result.Failed →
      (result.reason = .cancelled → w.NeverCancels) →
      ∃ r ∈ s.accepted, r.id = id ∧ (w.tokenize r.spec.prompt true ≠ [] → result.Alone w S r.spec) := by
  intro id result delivered unfailed quiet
  obtain ⟨earlier, t, _, _, ran, fewer, _, delivered, _⟩ := delivered_run run.guarded_true delivered
  cases delivered with
  | @retired job crew finished =>
    have exact_ := exact_run T off honest ran.of_guarded job crew
    refine ⟨job.request, fewer (requested_run ran.of_guarded job crew), rfl, fun prompt => ?_⟩
    refine (exact_.ended finished).alone prompt (fun cancelled => quiet ?_) unfailed
    exact (SequenceState.closed_reason _).trans cancelled
  | rejected =>
    -- refused by an idle pool: a failure
    refine absurd (.inr ?_) unfailed
    rw [Job.result, SequenceState.closed_reason]
    rfl

/-- The request a result was delivered for. -/
theorem alone_of_delivered (samples : Samples w) (off : config.prefixCaching = false)
    (quiet : w.NeverCancels) (run : (continuous w config capacity world).Run past s)
    {request : Request} (accepted : request ∈ s.accepted)
    (prompt : w.tokenize request.spec.prompt true ≠ []) {result : GenResult}
    (delivered : .setValue request.id result ∈ past) (unfailed : ¬ result.Failed) :
    result.Alone w samples.sampler request.spec := by
  obtain ⟨r, member, own, alone⟩ := alone_run samples.tracker off samples.honest run
    request.id result delivered unfailed fun _ => quiet
  have same : r = request := List.inj_on_of_nodup_map (counts_run run).1 member accepted own
  rw [same] at alone
  exact alone prompt

end Server

/-- Scheduling and cache pressure change when, never what.  Without prefix caching, every request
    that is delivered and has not failed got the text, the reason and the token counts that the
    generator produces for it alone on a fresh engine that tokenizes, spells and samples alike;
    and the generator does produce them if that engine always answers. -/
theorem delivered_as_alone {σ τ : Type} (w : World σ) (samples : Samples w) (quiet : w.NeverCancels)
    (config : SchedulerConfig) (off : config.prefixCaching = false) (capacity : Nat) (world : σ)
    (past : List Event) (s : Server (Continuous σ))
    (run : (Server.continuous w config capacity world).Run past s)
    (prompts : ∀ r ∈ s.accepted, w.tokenize r.spec.prompt true ≠ []) (request : Request)
    (accepted : request ∈ s.accepted) (result : GenResult)
    (delivered : .setValue request.id result ∈ past)
    (unfailed : result.reason ≠ .error ∧ result.reason ≠ .contextOverflow)
    (v : World τ) (twin : Samples v) (alike : samples.Twin twin) (silent : v.NeverCancels)
    (seq : Nat) (sink : SinkRef) (port : Port τ) :
    (v.NeverThrows → v.Answers → ∃ port', generateOne v seq request.spec sink port = some (.ok (), port')) ∧
    ∀ port', generateOne v seq request.spec sink port = some (.ok (), port') →
      streamed sink port'.log = streamed sink port.log ++ result.text ∧
      ∃ calls usage, port'.log = calls ++ [.onFinish sink result.reason usage] ∧
        usage.promptTokens = result.usage.promptTokens ∧
        usage.completionTokens = result.usage.completionTokens := by
  constructor
  · intro engine answers
    exact generateOne_returns engine answers seq request.spec sink port
  · intro port' ran
    obtain ⟨final, concludes, text, reason, prompt, completion⟩ :=
      Server.alone_of_delivered samples off quiet run accepted (prompts request accepted) delivered
        (not_or.mpr unfailed)
    obtain ⟨final', concludes', sent, calls, usage, log, counted, generated, _⟩ :=
      @generateOne_told _ _ twin _ _ _ _ _ (silent sink) ran
    -- both ran the same generation, and it has one end
    cases concludes.det (samples.determines request.spec) (alike.concludes concludes')
    rw [text, reason, prompt, completion]
    exact ⟨sent, calls, usage, log, counted, generated⟩

/-- Two requests in a pool too small for both: request 1 is preempted after four bytes, runs again
    from the start, and still gets what it gets alone. -/
theorem delivered_as_alone_letter :
    ∃ past s result port',
      (Server.continuous Script.letter.world (.pair 8) 4 fun _ => none).Run past s ∧
      { id := 1, spec := { prompt := [1], maxTokens := 4 } } ∈ s.accepted ∧
      .setValue 1 result ∈ past ∧ Event.preempt 1 1 0 4 ∈ past ∧
      generateOne Script.letter.world 0 { prompt := [1], maxTokens := 4 } (.collecting 7)
        { world := fun _ => none } = some (.ok (), port') ∧
      streamed (.collecting 7) port'.log = result.text := by
  obtain ⟨past, s, run, accepted, prompts, preempted, ⟨id, result⟩, delivered, rfl, unfailed⟩ : ∃ past s,
      (Server.continuous Script.letter.world (.pair 8) 4 fun _ => none).Run past s ∧
      ({ id := 1, spec := { prompt := [1], maxTokens := 4 } } ∈ s.accepted ∧
        (∀ r ∈ s.accepted, Script.letter.world.tokenize r.spec.prompt true ≠ []) ∧
        Event.preempt 1 1 0 4 ∈ past ∧
        ∃ d ∈ past.filterMap Event.result?, d.1 = 1 ∧ d.2.reason ≠ .error ∧ d.2.reason ≠ .contextOverflow) :=
    Server.exists_run ([.push { id := 0, spec := { prompt := [1], maxTokens := 4 } },
      .push { id := 1, spec := { prompt := [1], maxTokens := 4 } }] ++
      List.replicate 115 .run) rfl rfl (by decide +kernel)
  have done := Event.mem_results.mp delivered
  obtain ⟨returns, same⟩ := delivered_as_alone Script.letter.world Script.letter.samples
    Script.letter.world_neverCancels (.pair 8) rfl 4 _ past s run prompts _ accepted result done unfailed
    Script.letter.world Script.letter.samples ⟨rfl, rfl, rfl⟩ Script.letter.world_neverCancels 0
    (.collecting 7) { world := fun _ => none }
  obtain ⟨port', ran⟩ := returns Script.letter_neverThrows Script.letter.world_answers
  exact ⟨past, s, result, port', run, accepted, done, preempted, ran, (same port' ran).1⟩

end MicroVllm
