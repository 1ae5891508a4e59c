import MicroVllm.Emission
import MicroVllm.Reference
import MicroVllm.Scheduler.Continuous
import MicroVllm.Works

/-! # The single-request generator

`generate_one` drives one request to its end: the whole prompt in one decode, then one
token at a time.  It returns nothing; what it produces is what its sink is told.  The
loop takes fuel, and the token budget of the request is always enough.
-/

namespace MicroVllm

variable {σ : Type}

/-- `engine.decode(item).at(0)`. -/
def Port.decodeOne (w : World σ) (item : BatchItem) (port : Port σ) : Except String GenStep × Port σ :=
  match port.decode w [item] with
  | (.error message, port) => (.error message, port)
  | (.ok [], port) => (.error (Continuous.outOfRange 0), port)
  | (.ok (step :: _), port) => (.ok step, port)

/-- The `while` loop: accept the sampled token, and as long as the sequence goes on feed it
    back; `none` when the fuel is spent. -/
def generateLoop (w : World σ) (fuel : Nat) (s : SequenceState) (step : GenStep) (port : Port σ) :
    Option (Except String SequenceState × Port σ) :=
  match s.accept w step port with
  | (false, s, port) => some (.ok s, port)
  | (true, s, port) =>
    match fuel with
    | 0 => none
    | fuel + 1 =>
      match port.decodeOne w s.decodeItem with
      | (.error message, port) => some (.error message, port)
      | (.ok step, port) => generateLoop w fuel s step port

/-- An exception of the engine leaves the function, with the slot still registered and the
    sink not notified. -/
def generateOne (w : World σ) (seq : Nat) (spec : RequestSpec) (sink : SinkRef) (port : Port σ) :
    Option (Except String Unit × Port σ) :=
  let s := SequenceState.make seq spec sink (w.tokenize spec.prompt true)
  match port.beginSequence w seq spec.sampling with
  | (.error message, port) => some (.error message, port)
  | (.ok (), port) =>
    let item := s.prefillItem
    match port.decodeOne w item.1 with
    | (.error message, port) => some (.error message, port)
    | (.ok step, port) =>
      match generateLoop w spec.maxTokens.toNat item.2 step port with
      | none => none
      | some (.error message, port) => some (.error message, port)
      | some (.ok s, port) => some (.ok (), (s.finish w (port.releaseSequence w seq)).2)

/-! ## It returns -/

section Returns

variable {w : World σ}

theorem decodeOne_returns (engine : w.NeverThrows) (answers : w.Answers) {item : BatchItem}
    (samples : item.sample = true) (port : Port σ) :
    ∃ step port', port.decodeOne w item = (.ok step, port') := by
  have returned := engine.decodes [item] port.world
  have enough := answers [item] port.world
  simp only [Port.decodeOne, Port.decode]
  cases result : w.decode [item] port.world with
  | mk outcome world =>
    rw [result] at returned
    cases outcome with
    | error => cases returned
    | ok steps =>
      cases steps with
      | nil =>
        have short := enough [] world result
        simp [samples] at short
      | cons step steps => exact ⟨_, _, rfl⟩

/-- Every turn of the loop spends one token of the budget. -/
theorem generateLoop_returns (engine : w.NeverThrows) (answers : w.Answers) (fuel : Nat)
    (s : SequenceState) (step : GenStep) (port : Port σ)
    (enough : s.spec.maxTokens.toNat ≤ s.usage.completionTokens + fuel) :
    ∃ s' port', generateLoop w fuel s step port = some (.ok s', port') := by
  induction fuel generalizing s step port with
  | zero =>
    rw [generateLoop]
    split
    · exact ⟨_, _, rfl⟩
    · rename_i goesOn
      cases SequenceState.accept_accepts goesOn with
      | goesOn _ _ left => omega
  | succ fuel ih =>
    rw [generateLoop]
    split
    · exact ⟨_, _, rfl⟩
    · rename_i goesOn
      rename_i fed accepted
      obtain ⟨next, port', decoded⟩ :=
        decodeOne_returns engine answers (show fed.decodeItem.sample = true from rfl) accepted
      simp only [decoded]
      apply ih
      cases SequenceState.accept_accepts goesOn with
      | goesOn _ _ left =>
        show s.spec.maxTokens.toNat ≤ s.usage.completionTokens + 1 + fuel
        omega

theorem generateOne_returns (engine : w.NeverThrows) (answers : w.Answers) (seq : Nat)
    (spec : RequestSpec) (sink : SinkRef) (port : Port σ) :
    ∃ port', generateOne w seq spec sink port = some (.ok (), port') := by
  have begun : ∃ port', port.beginSequence w seq spec.sampling = (.ok (), port') :=
    ⟨_, Prod.ext (engine.begins seq spec.sampling port.world) rfl⟩
  obtain ⟨port₁, begun⟩ := begun
  have samples : (SequenceState.make seq spec sink
      (w.tokenize spec.prompt true)).prefillItem.1.sample = true := by
    simp [SequenceState.prefillItem, SequenceState.takePrefillChunk, SequenceState.make,
      SequenceState.prefillRemaining]
  obtain ⟨step, port₂, prefilled⟩ := decodeOne_returns engine answers samples port₁
  obtain ⟨s, port₃, ran⟩ := generateLoop_returns engine answers spec.maxTokens.toNat
    (SequenceState.make seq spec sink (w.tokenize spec.prompt true)).prefillItem.2 step port₂
    (Nat.le_add_left _ _)
  simp only [generateOne, begun, prefilled, ran]
  exact ⟨_, rfl⟩

end Returns

/-! ## What it produces -/

section Produces

variable {w : World σ} (samples : Samples w)

/-- The loop is about to accept `step`, after `tokens`. -/
structure Drives (spec : RequestSpec) (tokens : List Token) (s : SequenceState) (step : GenStep)
    (port : Port σ) : Prop where
  generates : Generates w (spec.Sampled w samples.sampler) (spec.opening w) tokens s.core
  held : samples.kv port.world s.seq =
    some { params := spec.sampling, cells := w.tokenize spec.prompt true ++ tokens }
  sampled : spec.Sampled w samples.sampler tokens step

variable {samples} {spec : RequestSpec} {tokens : List Token} {s s' : SequenceState}
variable {step : GenStep} {port port' : Port σ}

/-- One item alone: its slot is fed, and the step is sampled from what the slot then holds. -/
theorem decodeOne_sampled {item : BatchItem} {params : SamplingParams} {cells : List Token}
    (asks : item.sample = true) (held : samples.kv port.world item.seq = some { params, cells })
    (returned : port.decodeOne w item = (.ok step, port')) :
    samples.kv port'.world item.seq = some { params, cells := cells ++ item.tokens } ∧
      samples.sampler params (cells ++ item.tokens) step ∧
      port'.log = port.log ++ [.decode [item] true] := by
  obtain ⟨result, world, called⟩ : ∃ result world, w.decode [item] port.world = (result, world) :=
    ⟨_, _, rfl⟩
  simp only [Port.decodeOne, Port.decode, called] at returned
  cases result with
  | error => cases returned
  | ok steps =>
    cases steps with
    | nil => cases returned
    | cons first rest =>
      cases returned
      obtain ⟨contents, answers⟩ := samples.decodes port.world world [item] (step :: rest) called
      have fed : samples.kv world item.seq = some { params, cells := cells ++ item.tokens } := by
        rw [contents]
        simp [Kv.feed, held, tokensFor, CellKind.token]
      refine ⟨fed, ?_, rfl⟩
      rw [List.filter_cons_of_pos asks] at answers
      cases answers with
      | cons head _ => exact head _ fed

/-- What the loop comes to: the generation stops, and the sink has been sent what counts as
    emitted. -/
theorem generateLoop_stops {fuel : Nat} (drives : Drives samples spec tokens s step port)
    (bounded : s.Bounded) (ran : generateLoop w fuel s step port = some (.ok s', port')) :
    (∃ tokens' t step', Generates w (spec.Sampled w samples.sampler) (spec.opening w) tokens' t ∧
      spec.Sampled w samples.sampler tokens' step' ∧ t.Accepts w step' false s'.core) ∧
      s.Emits port s' port' := by
  induction fuel generalizing tokens s step port with
  | zero =>
    rw [generateLoop] at ran
    split at ran
    · rename_i stopped
      cases ran
      exact ⟨⟨_, _, _, drives.generates, drives.sampled,
        (SequenceState.accept_accepts stopped).core⟩, SequenceState.accept_emits bounded stopped⟩
    · cases ran
  | succ fuel ih =>
    rw [generateLoop] at ran
    split at ran
    · rename_i stopped
      cases ran
      exact ⟨⟨_, _, _, drives.generates, drives.sampled,
        (SequenceState.accept_accepts stopped).core⟩, SequenceState.accept_emits bounded stopped⟩
    · rename_i next port₁ goesOn
      simp only at ran
      split at ran
      · cases ran
      · rename_i step₁ port₂ decoded
        have accepts := SequenceState.accept_accepts goesOn
        have emits := SequenceState.accept_emits bounded goesOn
        have pending : next.pending = step.token := by
          cases accepts
          rfl
        -- accepting leaves the contents alone, and the token that comes back is the one accepted
        have held : samples.kv port₁.world next.decodeItem.seq = some
            { params := spec.sampling, cells := w.tokenize spec.prompt true ++ tokens } := by
          have kept : samples.tracker.contents [] port₁ = samples.tracker.contents [] port :=
            samples.tracker.contents_accept goesOn
          show samples.tracker.contents [] port₁ next.seq = _
          rw [kept, accepts.same.seq]
          exact drives.held
        obtain ⟨fed, sampled, log⟩ := decodeOne_sampled rfl held decoded
        have tokensFed : next.decodeItem.tokens = [step.token] := by
          rw [SequenceState.decodeItem, pending]
        rw [tokensFed, List.append_assoc] at fed sampled
        have later := ih ⟨drives.generates.next drives.sampled accepts.core, fed, sampled⟩
          emits.bounded ran
        have silent : ∀ sink, streamed sink port₂.log = streamed sink port₁.log := by
          intro sink
          rw [log, streamed_append]
          exact List.append_nil _
        refine ⟨later.1, emits.trans (SequenceState.Emits.trans ?_ later.2)⟩
        exact .still emits.bounded rfl rfl silent

/-- Only its own sink cancels it, and nothing is taken from a cache. -/
theorem generateLoop_keeps {fuel : Nat} (ran : generateLoop w fuel s step port = some (.ok s', port'))
    (silent : ∀ world, w.cancelled s.sink world = false) (before : s.reason ≠ .cancelled) :
    s'.reason ≠ .cancelled ∧ s'.usage.cachedPromptTokens = s.usage.cachedPromptTokens := by
  have one : ∀ {s t : SequenceState} {step : GenStep} {goesOn : Bool}, s.Accepts w step goesOn t →
      t.usage.cachedPromptTokens = s.usage.cachedPromptTokens := by
    intro s t step goesOn accepts
    cases accepts <;> rfl
  induction fuel generalizing s step port with
  | zero =>
    rw [generateLoop] at ran
    split at ran
    · rename_i stopped
      cases ran
      exact ⟨SequenceState.accept_uncancelled stopped silent before, one (SequenceState.accept_accepts stopped)⟩
    · cases ran
  | succ fuel ih =>
    rw [generateLoop] at ran
    split at ran
    · rename_i stopped
      cases ran
      exact ⟨SequenceState.accept_uncancelled stopped silent before, one (SequenceState.accept_accepts stopped)⟩
    · rename_i next port₁ goesOn
      simp only at ran
      split at ran
      · cases ran
      · have sink := (SequenceState.accept_same goesOn).sink
        obtain ⟨uncancelled, cold⟩ := ih ran (by rw [sink]; exact silent)
          (SequenceState.accept_uncancelled goesOn silent before)
        exact ⟨uncancelled, cold.trans (one (SequenceState.accept_accepts goesOn))⟩

/-- The first decode holds the whole prompt, and samples the first token from it. -/
theorem Drives.first {seq : Nat} {sink : SinkRef}
    (begun : port.beginSequence w seq spec.sampling = (.ok (), port'))
    {port'' : Port σ}
    (prefilled : port'.decodeOne w (SequenceState.make seq spec sink
      (w.tokenize spec.prompt true)).prefillItem.1 = (.ok step, port'')) :
    Drives samples spec [] (SequenceState.make seq spec sink
      (w.tokenize spec.prompt true)).prefillItem.2 step port'' ∧
    ∀ s, streamed s port''.log = streamed s port.log := by
  have tokens : (SequenceState.make seq spec sink (w.tokenize spec.prompt true)).prefillItem.1.tokens =
      w.tokenize spec.prompt true := by
    simp [SequenceState.prefillItem, SequenceState.takePrefillChunk, SequenceState.make,
      SequenceState.prefillRemaining]
  have asks : (SequenceState.make seq spec sink (w.tokenize spec.prompt true)).prefillItem.1.sample = true := by
    simp [SequenceState.prefillItem, SequenceState.takePrefillChunk, SequenceState.make,
      SequenceState.prefillRemaining]
  have held : samples.kv port'.world seq = some { params := spec.sampling, cells := [] } := by
    have contents : samples.tracker.contents [] port' =
        (samples.tracker.contents [] port).begin seq spec.sampling := samples.tracker.contents_begin begun
    show samples.tracker.contents [] port' seq = _
    rw [contents]
    exact if_pos rfl
  obtain ⟨fed, sampled, log⟩ := decodeOne_sampled asks held prefilled
  rw [tokens] at fed sampled
  refine ⟨⟨.start, ?_, ?_⟩, fun s => ?_⟩
  · rw [List.append_nil]
    exact fed
  · rw [RequestSpec.Sampled, List.append_nil]
    exact sampled
  · have started : port'.log = port.log ++ [.beginSequence seq spec.sampling
        (w.beginSequence seq spec.sampling port.world).1.isOk] := by
      rw [show port' = (port.beginSequence w seq spec.sampling).2 by rw [begun]]
      rfl
    rw [log, started, streamed_append, streamed_append, List.append_assoc]
    exact List.append_nil _

/-- What the sink of a request is told that ran to its end alone: the text its generation comes
    to, and then how it ended. -/
theorem generateOne_told {seq : Nat} {sink : SinkRef} (silent : ∀ world, w.cancelled sink world = false)
    (ran : generateOne w seq spec sink port = some (.ok (), port')) :
    ∃ final, Concludes w (spec.Sampled w samples.sampler) (spec.opening w) final ∧
      streamed sink port'.log = streamed sink port.log ++ final.emittedText ∧
      ∃ calls usage, port'.log = calls ++ [.onFinish sink final.reason usage] ∧
        usage.promptTokens = final.usage.promptTokens ∧
        usage.completionTokens = final.usage.completionTokens ∧ usage.cachedPromptTokens = 0 := by
  -- of the ways out of `generate_one`, one returns: after the slot, the prompt and the loop
  simp only [generateOne] at ran
  split at ran
  · cases ran
  · rename_i port₁ begun
    split at ran
    · cases ran
    · rename_i step port₂ prefilled
      split at ran
      · cases ran
      · cases ran
      · rename_i s port₃ looped
        cases ran
        obtain ⟨drives, unheard⟩ : Drives samples spec [] _ step port₂ ∧
            ∀ s, streamed s port₂.log = streamed s port.log := Drives.first begun prefilled
        obtain ⟨uncancelled, cold⟩ := generateLoop_keeps looped silent (by
          simp [SequenceState.prefillItem, SequenceState.takePrefillChunk, SequenceState.make])
        obtain ⟨⟨tokens, t, last, generates, sampled, accepts⟩, emits⟩ :=
          generateLoop_stops drives (Nat.zero_le _) looped
        have unfinished : t.finished = false := generates.unfinished rfl
        have unnotified : s.notified = false := accepts.notified_eq.trans generates.notified_eq
        have toSink : s.sink = sink := emits.sink
        refine ⟨s.core.closed, .intro generates sampled accepts uncancelled, ?_, ?_⟩
        · -- what the loop and `finish` send is what the closed state counts as emitted
          have closing := SequenceState.finish_emits (w := w) emits.bounded (port₃.releaseSequence w seq)
          have released : s.Emits port₃ s (port₃.releaseSequence w seq) := by
            refine .still emits.bounded rfl rfl fun sink => ?_
            show streamed sink (port₃.log ++ [.releaseSequence seq]) = _
            rw [streamed_append]
            exact List.append_nil _
          obtain ⟨delta, emitted, sent⟩ := (emits.trans (released.trans closing)).own
          rw [SequenceState.finish_state] at emitted
          rw [show s.core.closed.emittedText = delta by rw [← SequenceState.closed_core]; exact emitted]
          rw [← unheard sink]
          exact sent
        · -- the last call is the outcome, and the state knows of no failure
          obtain ⟨calls, log, closing⟩ := SequenceState.finish_calls (w := w) s (port₃.releaseSequence w seq)
          rw [SequenceState.Closing, if_neg (by simp [unnotified])] at closing
          obtain ⟨texts, _, rfl⟩ := closing
          have unfailed : s.reason ≠ .error ∧ s.reason ≠ .contextOverflow := accepts.unfailed unfinished
          have outcome : s.outcome = .onFinish sink s.reason s.usage := by
            rw [SequenceState.outcome, if_neg (not_or.mpr unfailed), toSink]
          rw [outcome] at log
          refine ⟨(port₃.releaseSequence w seq).log ++ texts, s.usage, ?_, ?_, ?_, cold⟩
          · rw [log, List.append_assoc, SequenceState.closed_reason]
            rfl
          · rw [SequenceState.closed_usage]
            rfl
          · rw [SequenceState.closed_usage]
            rfl

end Produces

end MicroVllm
