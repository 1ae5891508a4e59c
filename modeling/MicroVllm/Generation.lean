import MicroVllm.SequenceState

/-! # One generation on its own

The states a request goes through as sampled tokens are accepted, without what depends on
how it is scheduled: its slot, its sink and how much of the prompt has been submitted.
What may be sampled is a parameter, a relation between the tokens accepted so far and the
next step.  When that relation is a function the whole generation is determined.
-/

namespace MicroVllm

namespace SequenceState

variable {σ : Type} {w : World σ}

/-- A state without what depends on the scheduling. -/
def core (s : SequenceState) : SequenceState :=
  { s with
    seq := 0
    sink := .collecting 0
    prefilled := 0
    usage := { s.usage with cachedPromptTokens := 0 } }

theorem Accepts.core {s s' : SequenceState} {step : GenStep} {goesOn : Bool}
    (accepts : s.Accepts w step goesOn s') : s.core.Accepts w step goesOn s'.core := by
  cases accepts with
  | done finished => exact .done finished
  | eos unfinished eog => exact .eos unfinished eog
  | budget unfinished more spent => exact .budget unfinished more spent
  | stop unfinished more left found => exact .stop unfinished more left found
  | cancelled unfinished more left clear heard => exact .cancelled unfinished more left clear heard
  | goesOn unfinished more left clear => exact .goesOn unfinished more left clear

/-- What `finish` does to the state: a clean finish gives out the held-back tail. -/
def closed (s : SequenceState) : SequenceState :=
  if s.notified then s
  else if s.reason = .eos ∨ s.reason = .maxTokens then
    { s with notified := true, finished := true }.emitUpto s.text.length
  else { s with notified := true, finished := true }

theorem finish_state (s : SequenceState) (port : Port σ) : (s.finish w port).1 = s.closed := by
  unfold finish closed
  split
  · rfl
  · simp only
    by_cases bad : s.reason = .error ∨ s.reason = .contextOverflow
    · have unclean : ¬ (s.reason = .eos ∨ s.reason = .maxTokens) := by
        rcases bad with bad | bad <;> simp [bad]
      rw [if_pos bad, if_neg unclean]
    · rw [if_neg bad]
      split
      · exact flushUpto_state _ _ _
      · rfl

theorem closed_core (s : SequenceState) : s.closed.core = s.core.closed := by
  unfold closed
  show core (if s.notified then _ else _) = if s.notified then _ else _
  split
  · rfl
  · show core (if s.reason = .eos ∨ s.reason = .maxTokens then _ else _) =
      if s.reason = .eos ∨ s.reason = .maxTokens then _ else _
    split <;> rfl

theorem closed_notified (s : SequenceState) : s.closed.notified = true := by
  unfold closed
  split
  · assumption
  · split <;> rfl

theorem closed_of_notified {s : SequenceState} (notified : s.notified = true) : s.closed = s :=
  if_pos notified

theorem closed_reason (s : SequenceState) : s.closed.reason = s.reason := by
  unfold closed
  split
  · rfl
  · split <;> rfl

theorem closed_usage (s : SequenceState) : s.closed.usage = s.usage := by
  unfold closed
  split
  · rfl
  · split <;> rfl

theorem closed_finished {s : SequenceState} (finished : s.finished = true) : s.closed.finished = true := by
  unfold closed
  split
  · exact finished
  · split <;> rfl

/-- Only a sink that says so cancels. -/
theorem Accepts.heard {s s' : SequenceState} {step : GenStep} (accepts : s.Accepts w step false s')
    (unfinished : s.finished = false) (cancelled : s'.reason = .cancelled) :
    ∃ sink world, w.cancelled sink world = true := by
  cases accepts with
  | done finished => simp [finished] at unfinished
  | eos | budget | stop => cases cancelled
  | cancelled _ _ _ _ heard => exact heard

theorem Accepts.notified_eq {s s' : SequenceState} {step : GenStep} {goesOn : Bool}
    (accepts : s.Accepts w step goesOn s') : s'.notified = s.notified := by
  cases accepts <;> rfl

/-- A sequence that stops by itself does not fail. -/
theorem Accepts.unfailed {s s' : SequenceState} {step : GenStep} (accepts : s.Accepts w step false s')
    (unfinished : s.finished = false) : s'.reason ≠ .error ∧ s'.reason ≠ .contextOverflow := by
  cases accepts with
  | done finished => simp [finished] at unfinished
  | eos | budget | stop | cancelled => constructor <;> intro failed <;> cases failed

/-- Of the engine, accepting a token only asks how it is spelled. -/
theorem Accepts.transfer {τ : Type} {v : World τ} {s s' : SequenceState} {step : GenStep} {goesOn : Bool}
    (accepts : s.Accepts w step goesOn s') (piece : v.piece = w.piece)
    (heard : goesOn = false → s'.reason ≠ .cancelled) : s.Accepts v step goesOn s' := by
  cases accepts with
  | done finished => exact .done finished
  | eos unfinished eog => exact .eos unfinished eog
  | budget unfinished more spent => exact .budget unfinished more spent
  | stop unfinished more left found =>
    rw [← piece] at found ⊢
    exact .stop unfinished more left found
  | cancelled => exact absurd rfl (heard rfl)
  | goesOn unfinished more left clear =>
    rw [← piece] at clear ⊢
    exact .goesOn unfinished more left clear

/-- What is accepted depends on the token alone, as long as nobody cancels. -/
theorem Accepts.det {s t t' : SequenceState} {step step' : GenStep} {goesOn goesOn' : Bool}
    (accepts : s.Accepts w step goesOn t) (accepts' : s.Accepts w step' goesOn' t')
    (token : step'.token = step.token) (eog : step'.isEog = step.isEog)
    (heard : goesOn = false → t.reason ≠ .cancelled)
    (heard' : goesOn' = false → t'.reason ≠ .cancelled) : goesOn' = goesOn ∧ t' = t := by
  cases accepts with
  | done finished =>
    cases accepts' with
    | done => exact ⟨rfl, rfl⟩
    | eos unfinished | budget unfinished | stop unfinished | cancelled unfinished
    | goesOn unfinished => simp [finished] at unfinished
  | eos unfinished isEog =>
    cases accepts' with
    | done finished => simp [finished] at unfinished
    | eos => exact ⟨rfl, rfl⟩
    | budget _ more | stop _ more | cancelled _ more | goesOn _ more =>
      simp [eog, isEog] at more
  | budget unfinished more spent =>
    cases accepts' with
    | done finished => simp [finished] at unfinished
    | eos _ isEog => simp [eog, more] at isEog
    | budget => exact ⟨rfl, rfl⟩
    | stop _ _ left | cancelled _ _ left | goesOn _ _ left => omega
  | stop unfinished more left found =>
    cases accepts' with
    | done finished => simp [finished] at unfinished
    | eos _ isEog => simp [eog, more] at isEog
    | budget _ _ spent => omega
    | stop _ _ _ found' =>
      rw [token, found, Option.some.injEq] at found'
      exact ⟨rfl, by rw [token, found']⟩
    | cancelled _ _ _ clear | goesOn _ _ _ clear => simp [token, found] at clear
  | cancelled => exact absurd rfl (heard rfl)
  | goesOn unfinished more left clear =>
    cases accepts' with
    | done finished => simp [finished] at unfinished
    | eos _ isEog => simp [eog, more] at isEog
    | budget _ _ spent => omega
    | stop _ _ _ found => simp [token, clear] at found
    | cancelled => exact absurd rfl (heard' rfl)
    | goesOn => exact ⟨rfl, by rw [token]⟩

end SequenceState

/-- What may be sampled for a slot with these parameters that holds these tokens. -/
abbrev Sampler := SamplingParams → List Token → GenStep → Prop

/-- Anything may be sampled. -/
def Sampler.any : Sampler := fun _ _ _ => True

namespace RequestSpec

/-- The state every generation for this request starts from. -/
def opening {σ : Type} (w : World σ) (spec : RequestSpec) : SequenceState :=
  .make 0 spec (.collecting 0) (w.tokenize spec.prompt true)

/-- What may be sampled for this request after it has accepted `tokens`. -/
def Sampled {σ : Type} (w : World σ) (S : Sampler) (spec : RequestSpec) (tokens : List Token)
    (step : GenStep) : Prop := S spec.sampling (w.tokenize spec.prompt true ++ tokens) step

/-- What is submitted for this request before the first step is sampled.  If there is no prompt it is
    the token that `pending` starts with. -/
def lead {σ : Type} (w : World σ) (spec : RequestSpec) : List Token :=
  if w.tokenize spec.prompt true = [] then [(spec.opening w).pending] else w.tokenize spec.prompt true

theorem lead_eq {σ : Type} {w : World σ} {spec : RequestSpec} (prompt : w.tokenize spec.prompt true ≠ []) :
    spec.lead w = w.tokenize spec.prompt true := if_neg prompt

end RequestSpec

/-- What may be sampled for a request after it has accepted these tokens. -/
abbrev Choice := RequestSpec → List Token → GenStep → Prop

/-- What a sampler may choose after what was submitted for the request and the tokens it has accepted. -/
def Sampler.choice {σ : Type} (S : Sampler) (w : World σ) : Choice :=
  fun spec tokens step => S spec.sampling (spec.lead w ++ tokens) step

theorem Sampler.choice_eq {σ : Type} {w : World σ} {spec : RequestSpec} (S : Sampler)
    (prompt : w.tokenize spec.prompt true ≠ []) : S.choice w spec = spec.Sampled w S := by
  funext tokens step
  rw [choice, RequestSpec.Sampled, RequestSpec.lead_eq prompt]

/-! ## Generations -/

/-- The tokens accepted so far and the state they lead to, starting from `first`.  `S` says
    which steps may be sampled after which tokens. -/
inductive Generates {σ : Type} (w : World σ) (S : List Token → GenStep → Prop)
    (first : SequenceState) : List Token → SequenceState → Prop where
  | start : Generates w S first [] first
  | next {tokens s step s'} (earlier : Generates w S first tokens s) (sampled : S tokens step)
      (accepts : s.Accepts w step true s') : Generates w S first (tokens ++ [step.token]) s'

/-- The state a generation ends in when it comes to an end by itself and the sink has been
    notified. -/
inductive Concludes {σ : Type} (w : World σ) (S : List Token → GenStep → Prop)
    (first : SequenceState) : SequenceState → Prop where
  | intro {tokens s step s'} (earlier : Generates w S first tokens s) (sampled : S tokens step)
      (accepts : s.Accepts w step false s') (heard : s'.reason ≠ .cancelled) :
      Concludes w S first s'.closed

section Generation

variable {σ : Type} {w : World σ} {S : List Token → GenStep → Prop} {first s : SequenceState}
variable {tokens : List Token}

namespace Generates

theorem unfinished (generates : Generates w S first tokens s) (fresh : first.finished = false) :
    s.finished = false := by
  cases generates with
  | start => exact fresh
  | next _ _ accepts => exact accepts.unfinished_of_goesOn.2

theorem spec_eq (generates : Generates w S first tokens s) : s.spec = first.spec := by
  induction generates with
  | start => rfl
  | next _ _ accepts ih => exact accepts.same.spec.trans ih

theorem prompt_eq (generates : Generates w S first tokens s) : s.prompt = first.prompt := by
  induction generates with
  | start => rfl
  | next _ _ accepts ih => exact accepts.same.prompt.trans ih

theorem promptTokens_eq (generates : Generates w S first tokens s) :
    s.usage.promptTokens = first.usage.promptTokens := by
  induction generates with
  | start => rfl
  | next _ _ accepts ih => exact accepts.same.promptTokens.trans ih

theorem notified_eq (generates : Generates w S first tokens s) : s.notified = first.notified := by
  induction generates with
  | start => rfl
  | next _ _ accepts ih => exact accepts.notified_eq.trans ih

theorem transfer {τ : Type} {v : World τ} {S' : List Token → GenStep → Prop}
    (generates : Generates w S first tokens s) (piece : v.piece = w.piece)
    (same : ∀ tokens step, S tokens step → S' tokens step) : Generates v S' first tokens s := by
  induction generates with
  | start => exact .start
  | next _ sampled accepts ih => exact ih.next (same _ _ sampled) (accepts.transfer piece (by simp))

/-- Every token counts, and the budget is never overdrawn. -/
theorem counted (generates : Generates w S first tokens s)
    (fresh : first.usage.completionTokens = 0) :
    s.usage.completionTokens = tokens.length ∧ tokens.length ≤ first.spec.maxTokens.toNat := by
  induction generates with
  | start => exact ⟨fresh, Nat.zero_le _⟩
  | next earlier _ accepts ih =>
    have same := earlier.spec_eq
    cases accepts with
    | goesOn _ _ left =>
      rw [same, ih.1] at left
      rw [List.length_append]
      exact ⟨congrArg (· + 1) ih.1, left⟩

/-- A generation has been through every number of tokens up to its own. -/
theorem earlier_step (generates : Generates w S first tokens s) {n : Nat} (fewer : n < tokens.length) :
    ∃ tokens' s' step t, tokens'.length = n ∧ Generates w S first tokens' s' ∧ S tokens' step ∧
      s'.Accepts w step true t := by
  induction generates with
  | start => cases fewer
  | @next tokens s step s' earlier sampled accepts ih =>
    by_cases last : n = tokens.length
    · exact ⟨tokens, s, step, s', last.symm, earlier, sampled, accepts⟩
    · rw [List.length_append, List.length_singleton] at fewer
      exact ih (by omega)

end Generates

/-- At most one token can come next. -/
def Determines (S : List Token → GenStep → Prop) : Prop :=
  ∀ tokens step step', S tokens step → S tokens step' →
    step'.token = step.token ∧ step'.isEog = step.isEog

theorem Generates.det (functional : Determines S) (generates : Generates w S first tokens s)
    {tokens' : List Token} {s' : SequenceState} (generates' : Generates w S first tokens' s')
    (length : tokens'.length = tokens.length) : tokens' = tokens ∧ s' = s := by
  induction generates generalizing tokens' s' with
  | start =>
    cases generates' with
    | start => exact ⟨rfl, rfl⟩
    | next => simp at length
  | next earlier sampled accepts ih =>
    cases generates' with
    | start => simp at length
    | next earlier' sampled' accepts' =>
      obtain ⟨rfl, rfl⟩ := ih earlier' (by simpa using length)
      obtain ⟨token, eog⟩ := functional _ _ _ sampled sampled'
      obtain ⟨_, rfl⟩ := accepts.det accepts' token eog (by simp) (by simp)
      exact ⟨by rw [token], rfl⟩

theorem Concludes.transfer {τ : Type} {v : World τ} {S' : List Token → GenStep → Prop}
    (concludes : Concludes w S first s) (piece : v.piece = w.piece)
    (same : ∀ tokens step, S tokens step → S' tokens step) : Concludes v S' first s := by
  cases concludes with
  | intro earlier sampled accepts heard =>
    exact .intro (earlier.transfer piece same) (same _ _ sampled) (accepts.transfer piece fun _ => heard) heard

theorem Concludes.det (functional : Determines S) {s' : SequenceState}
    (concludes : Concludes w S first s) (concludes' : Concludes w S first s') : s' = s := by
  cases concludes with
  | @intro tokens s step t earlier sampled accepts heard =>
    cases concludes' with
    | @intro tokens' s' step' t' earlier' sampled' accepts' heard' =>
      -- neither generation can go on where the other stops
      rcases Nat.lt_trichotomy tokens.length tokens'.length with fewer | same | more
      · obtain ⟨_, _, _, _, length, there, sampledThere, acceptsThere⟩ := earlier'.earlier_step fewer
        obtain ⟨rfl, rfl⟩ := earlier.det functional there length
        obtain ⟨token, eog⟩ := functional _ _ _ sampled sampledThere
        have stops := (accepts.det acceptsThere token eog (fun _ => heard) (by simp)).1
        cases stops
      · obtain ⟨rfl, rfl⟩ := earlier.det functional earlier' same.symm
        obtain ⟨token, eog⟩ := functional _ _ _ sampled sampled'
        rw [(accepts.det accepts' token eog (fun _ => heard) (fun _ => heard')).2]
      · obtain ⟨_, _, _, _, length, there, sampledThere, acceptsThere⟩ := earlier.earlier_step more
        obtain ⟨rfl, rfl⟩ := earlier'.det functional there length
        obtain ⟨token, eog⟩ := functional _ _ _ sampled' sampledThere
        have stops := (accepts'.det acceptsThere token eog (fun _ => heard') (by simp)).1
        cases stops

end Generation

end MicroVllm
