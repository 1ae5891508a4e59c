import MicroVllm.Scheduler.Agreement
import MicroVllm.Scheduler.Room

/-! # Shared prefixes and results

What a request comes to is fixed by the engine and the size of the pool: its generation ends by
itself, or reaches a length that the pool cannot hold.  A sequence that starts from a copied prefix
comes to the same, as long as the copy leaves at least the last token of the prompt to submit.
When the copy is the whole prompt, the last token is submitted a second time on top of it.
-/

namespace MicroVllm

/-! ## Outcomes -/

/-- A request is only sampled for as long as the pool can hold it; `L` says which lengths it cannot. -/
def Choice.within {σ : Type} (C : Choice) (w : World σ) (L : Nat → Prop) : Choice :=
  fun spec tokens step =>
    C spec tokens step ∧ ¬ L (toUint32 ((w.tokenize spec.prompt true).length + tokens.length))

/-- The text, the reason and the number of tokens that a request comes to. -/
inductive Outcome {σ : Type} (w : World σ) (C : Choice) (L : Nat → Prop) (spec : RequestSpec) :
    Text → FinishReason → Nat → Prop where
  | refused (outside : spec.Overflows w) : Outcome w C L spec [] .contextOverflow 0
  | exceeded {tokens s} (inside : ¬ spec.Overflows w)
      (generates : Generates w (C spec) (spec.opening w) tokens s)
      (large : L (toUint32 (s.prompt.length + tokens.length))) :
      Outcome w C L spec s.emittedText .contextOverflow s.usage.completionTokens
  | concluded {final} (inside : ¬ spec.Overflows w)
      (concludes : Concludes w (C spec) (spec.opening w) final) :
      Outcome w C L spec final.emittedText final.reason final.usage.completionTokens

section Outcomes

variable {σ : Type} {w : World σ} {C : Choice} {L : Nat → Prop} {spec : RequestSpec}
variable {tokens tokens' : List Token} {s s' : SequenceState}

/-- A generation never goes on from a length that the pool cannot hold. -/
theorem Generates.not_large (generates : Generates w (C.within w L spec) (spec.opening w) tokens s)
    {n : Nat} (fewer : n < tokens.length) :
    ¬ L (toUint32 ((w.tokenize spec.prompt true).length + n)) := by
  obtain ⟨earlier, _, step, _, rfl, _, sampled, _⟩ := generates.earlier_step fewer
  exact sampled.2

/-- It only reaches one such length. -/
theorem Generates.length_of_large (generates : Generates w (C.within w L spec) (spec.opening w) tokens s)
    (large : L (toUint32 ((w.tokenize spec.prompt true).length + tokens.length)))
    (generates' : Generates w (C.within w L spec) (spec.opening w) tokens' s')
    (large' : L (toUint32 ((w.tokenize spec.prompt true).length + tokens'.length))) :
    tokens'.length = tokens.length := by
  rcases Nat.lt_trichotomy tokens'.length tokens.length with fewer | same | more
  · exact absurd large' (generates.not_large fewer)
  · exact same
  · exact absurd large (generates'.not_large more)

/-- It does not end by itself where the pool ends it. -/
theorem Generates.not_concludes (functional : Determines (C.within w L spec))
    (generates : Generates w (C.within w L spec) (spec.opening w) tokens s)
    (large : L (toUint32 ((w.tokenize spec.prompt true).length + tokens.length)))
    (concludes : Concludes w (C.within w L spec) (spec.opening w) s') : False := by
  cases concludes with
  | @intro tokens' s' step t earlier sampled accepts heard =>
    by_cases beyond : tokens'.length < tokens.length
    · -- the generation goes on where the other stops
      obtain ⟨_, _, _, _, length, there, sampledThere, acceptsThere⟩ := generates.earlier_step beyond
      obtain ⟨rfl, rfl⟩ := earlier.det functional there length
      obtain ⟨token, eog⟩ := functional _ _ _ sampled sampledThere
      have stops := (accepts.det acceptsThere token eog (fun _ => heard) (by simp)).1
      cases stops
    · -- the other has been sampled for at the length in question
      by_cases same : tokens'.length = tokens.length
      · rw [← same] at large
        exact sampled.2 large
      · exact earlier.not_large (by omega) large

/-- There is only one outcome. -/
theorem Outcome.unique (functional : Determines (C.within w L spec)) {text text' : Text}
    {reason reason' : FinishReason} {n n' : Nat} (outcome : Outcome w (C.within w L) L spec text reason n)
    (outcome' : Outcome w (C.within w L) L spec text' reason' n') :
    text' = text ∧ reason' = reason ∧ n' = n := by
  cases outcome with
  | refused outside =>
    cases outcome' with
    | refused => exact ⟨rfl, rfl, rfl⟩
    | exceeded inside | concluded inside => exact absurd outside inside
  | exceeded inside generates large =>
    rw [generates.prompt_eq] at large
    cases outcome' with
    | refused outside => exact absurd outside inside
    | exceeded _ generates' large' =>
      rw [generates'.prompt_eq] at large'
      obtain ⟨_, rfl⟩ := generates.det functional generates'
        (generates.length_of_large large generates' large')
      exact ⟨rfl, rfl, rfl⟩
    | concluded _ concludes => exact (generates.not_concludes functional large concludes).elim
  | concluded inside concludes =>
    cases outcome' with
    | refused outside => exact absurd outside inside
    | exceeded _ generates large =>
      rw [generates.prompt_eq] at large
      exact (generates.not_concludes functional large concludes).elim
    | concluded _ concludes' =>
      rw [concludes.det functional concludes']
      exact ⟨rfl, rfl, rfl⟩

/-- A job that has ended comes to the outcome of its request. -/
theorem Job.Ended.outcome {job : Job} (ended : job.Ended w C L) (quiet : w.NeverCancels)
    (unfailed : job.state.reason ≠ .error) :
    Outcome w C L job.request.spec job.state.closed.emittedText job.state.closed.reason
      job.state.closed.usage.completionTokens := by
  have same := SequenceState.closed_core job.state
  have text : job.state.closed.emittedText = job.state.closed.core.emittedText := rfl
  have reason : job.state.closed.reason = job.state.closed.core.reason := rfl
  have count : job.state.closed.usage.completionTokens =
    job.state.closed.core.usage.completionTokens := rfl
  rw [text, reason, count, same]
  cases ended with
  | stopped stopped =>
    rcases stopped with error | ⟨_, sink, world, heard⟩
    · exact absurd error unfailed
    · rw [quiet] at heard
      cases heard
  | refused outside state =>
    rw [state]
    exact .refused outside
  | @overflowed tokens s message inside generates large state =>
    have fresh : (s.fail message .contextOverflow).notified = false := generates.notified_eq
    have failed : (s.fail message .contextOverflow).closed =
        { s.fail message .contextOverflow with notified := true, finished := true } := by
      rw [SequenceState.closed, if_neg (by simp [fresh]), if_neg (by simp [SequenceState.fail,
        SequenceState.stopWith])]
    rw [state, failed]
    exact Outcome.exceeded (s := s) inside generates large
  | concluded inside concludes => exact .concluded inside concludes

end Outcomes

/-- What an engine of this contract may sample for a request. -/
def Samples.choice {σ : Type} {w : World σ} (samples : Samples w) : Choice := samples.sampler.choice w

theorem Samples.choice_determines {σ : Type} {w : World σ} (samples : Samples w) (L : Nat → Prop)
    (spec : RequestSpec) : Determines (samples.choice.within w L spec) := by
  intro tokens step step' sampled sampled'
  have same : (step'.token, step'.isEog) = (step.token, step.isEog) :=
    Eq.trans sampled'.1 (Eq.symm sampled.1)
  exact ⟨congrArg Prod.fst same, congrArg Prod.snd same⟩

/-! ## Along a run -/

namespace Continuous

variable {σ : Type}

/-- No entry is for the whole prompt of a job that is being admitted. -/
def SharesPart (s : Continuous σ) : Prop :=
  ∀ job ∈ s.pc.inHand, s.Enters job → ∀ p ∈ s.prefixCache.pairs,
    p.1 = PrefixCache.hashPrefix job.state.prompt p.2.nTokens → p.2.nTokens ≠ job.state.prompt.length

instance (s : Continuous σ) : Decidable s.SharesPart :=
  inferInstanceAs (Decidable (∀ job ∈ s.pc.inHand, s.Enters job → ∀ p ∈ s.prefixCache.pairs,
    p.1 = PrefixCache.hashPrefix job.state.prompt p.2.nTokens → p.2.nTokens ≠ job.state.prompt.length))

end Continuous

namespace Server

variable {σ : Type} {w : World σ} {config : SchedulerConfig} {capacity : Nat} {world : σ}
variable {past : List Event} {s : Server (Continuous σ)}

/-- A hit for a prompt that the hash tells apart is for tokens that its slot holds. -/
theorem covers_run (samples : Samples w) (engine : w.NeverThrows) (apart : config.Apart)
    (run : (continuous w config capacity world).Run past s)
    (distinct : Collisionless w (config.construct w.caps) s.accepted)
    (shares : s.thread.SharesPart) {job : Job} (hand : job ∈ s.thread.pc.inHand) (enters : s.thread.Enters job) :
    CoversPart s.thread ((samples.steady engine).contents past s.thread.port) job.state.prompt := by
  intro hit found within
  have tokens := tokens_run (samples.steady engine) trivial engine samples.answers apart run distinct
  obtain ⟨source, there, holds⟩ := tokens.entries _ found
  have filed := (filed_run run).1 _ found
  refine ⟨Nat.lt_of_le_of_ne within (shares job hand enters _ found rfl), source, there, ?_⟩
  rw [holds.take_eq filed.within]
  exact agrees_run run distinct job (List.mem_append_right _ hand) hit found within

/-- If no hit is for a whole prompt every seat is exact, with caching or without. -/
theorem shared_run (samples : Samples w) (engine : w.NeverThrows) (apart : config.Apart)
    (run : ((continuous w config capacity world).guarded fun s _ _ => s.thread.SharesPart).Run past s)
    (distinct : Collisionless w (config.construct w.caps) s.accepted) :
    s.thread.Exact w (samples.choice.within w (config.construct w.caps).Exceeded)
      (config.construct w.caps).Exceeded (samples.steady engine) past := by
  refine continuous_thread_invariant ?_ ?_ (accepting_run (fun fewer all => all.mono fewer) run distinct)
  · intro job member
    simp [Continuous.crew, Continuous.start, Pc.inHand] at member
  · rintro past s thread queue run settled before move ⟨shares, distinct⟩
    obtain ⟨lostBlocks, lostSlots, books⟩ := books_run apart run.of_guarded
    obtain ⟨total, size⟩ := pool_run run.of_guarded
    have exceeded : ∀ n, s.thread.blocks.total < s.thread.blocks.blocksFor n ↔
        (config.construct w.caps).Exceeded n := by
      intro n
      unfold BlockAllocator.blocksFor SchedulerConfig.Exceeded
      rw [total, size]
    refine before.move settled.layout (orderly_run run.of_guarded) books
      (samples.honest past s.thread.port) ?_ (fun n large => (exceeded n).mp large) ?_ move
    · -- when a batch is built nothing is short, so all that is submitted for fits the pool
      intro pc job active unfinished tokens step needed answered
      refine ⟨answered, fun large => ?_⟩
      have fits := fitting_run apart run.of_guarded job active unfinished (by simp [pc, Pc.short])
      have prompt := (settled.layout.origin job active).prompt
      rw [needed, prompt] at fits
      exact Nat.not_lt.mpr fits ((exceeded _).mpr large)
    · intro _ job pc enters
      exact covers_run samples engine apart run.of_guarded distinct shares (by simp [pc, Pc.inHand]) enters

/-- Every result is then the outcome of its request. -/
theorem outcome_run (samples : Samples w) (engine : w.NeverThrows) (quiet : w.NeverCancels)
    (apart : config.Apart)
    (run : ((continuous w config capacity world).guarded fun s _ _ =>
      s.thread.SharesPart ∧ s.thread.Intact).Run past s)
    (distinct : Collisionless w (config.construct w.caps) s.accepted) :
    ∀ id result, Event.setValue id result ∈ past → ∃ r ∈ s.accepted, r.id = id ∧
      Outcome w (samples.choice.within w (config.construct w.caps).Exceeded)
        (config.construct w.caps).Exceeded r.spec result.text result.reason
        result.usage.completionTokens := by
  intro id result delivered
  obtain ⟨earlier, t, _, _, ran, fewer, settled, delivered, _, intact⟩ := delivered_run run delivered
  have exact_ := shared_run samples engine apart (ran.mono fun _ _ _ ok => ok.1) (distinct.mono fewer)
  have clean := clean_run engine samples.answers apart ran.of_guarded
  cases delivered with
  | @retired job inside finished =>
    refine ⟨job.request, fewer (requested_run ran.of_guarded job inside), rfl, ?_⟩
    exact ((exact_ job inside).ended finished).outcome quiet (clean job inside).unfailed
  | @rejected job inside pc unfinished full alone =>
    refine ⟨job.request, fewer (requested_run ran.of_guarded job inside), rfl, ?_⟩
    obtain ⟨total, size⟩ := pool_run ran.of_guarded
    obtain ⟨tokens, cells, running⟩ := (exact_ job inside).running unfinished
    -- the job in hand has no blocks yet, and needs room for its prompt
    have large : (config.construct w.caps).Exceeded job.needed := by
      obtain ⟨request, slot, slots, rfl, _⟩ := settled.layout.hand job pc
      have large := intact.no_room alone rfl full
      rw [Continuous.newJob_needed]
      unfold Continuous.want BlockAllocator.blocksFor at large
      rw [total, size] at large
      exact large
    refine (running.overflow large (t.thread.rejectMessage job)).outcome quiet ?_
    simp [SequenceState.fail, SequenceState.stopWith]

/-- Without caching there is nothing to share and nothing to lose. -/
theorem unshared_run (engine : w.NeverThrows) (off : config.prefixCaching = false)
    (run : (continuous w config capacity world).Run past s) :
    ((continuous w config capacity world).guarded fun s _ _ =>
      s.thread.SharesPart ∧ s.thread.Intact).Run past s := by
  apply run.guard
  intro past s events t earlier _
  constructor
  · intro job _ _ p member
    simp [uncached_run off earlier] at member
  · exact (books_spared engine.toOnlyDecodeThrows (.inr off) (spares_run off earlier)).intact

/-- The result of a request is the outcome of that request. -/
theorem outcome_of_delivered (samples : Samples w) (engine : w.NeverThrows) (quiet : w.NeverCancels)
    (apart : config.Apart)
    (run : ((continuous w config capacity world).guarded fun s _ _ =>
      s.thread.SharesPart ∧ s.thread.Intact).Run past s)
    (distinct : Collisionless w (config.construct w.caps) s.accepted) {r : Request}
    (accepted : r ∈ s.accepted) {result : GenResult} (delivered : .setValue r.id result ∈ past) :
    Outcome w (samples.choice.within w (config.construct w.caps).Exceeded)
      (config.construct w.caps).Exceeded r.spec result.text result.reason
      result.usage.completionTokens := by
  obtain ⟨r', known, own, outcome⟩ := outcome_run samples engine quiet apart run distinct r.id result delivered
  have same : r' = r := List.inj_on_of_nodup_map (counts_run run.of_guarded).1 known accepted own
  rw [← same]
  exact outcome

end Server

/-- The size of the pool does not depend on whether prefixes are cached. -/
theorem SchedulerConfig.exceeded_caching (caps : EngineCaps) (config : SchedulerConfig) (caching : Bool) :
    ({ config with prefixCaching := caching }.construct caps).Exceeded =
      (config.construct caps).Exceeded := by
  have size : ({ config with prefixCaching := caching }.construct caps).blockSize =
      (config.construct caps).blockSize := by
    rw [(construct_pool caps _).1, (construct_pool caps config).1]
    simp only [settle, clampDonors, sizePool, clampBatch]
    split <;> rfl
  have blocks : ({ config with prefixCaching := caching }.construct caps).kvBlocks =
      (config.construct caps).kvBlocks := by
    rw [(construct_pool caps _).2.1, (construct_pool caps config).2.1]
    simp only [settle, clampDonors, sizePool, clampBatch]
    split <;> rfl
  funext n
  unfold Exceeded
  rw [size, blocks]

/-- With an engine that samples from the tokens of a sequence and never throws, and prompts of which none
    collides with the whole blocks of another: a request gets the same text, reason and number of tokens
    with prefix caching and without, in any run without and in any run with it that never admits a job
    whose whole prompt is cached, and never finds blocks missing when nothing holds any. -/
theorem caching_keeps_results {σ : Type} (w : World σ) (samples : Samples w) (engine : w.NeverThrows)
    (quiet : w.NeverCancels) (config : SchedulerConfig) (batch : 1 ≤ config.maxBatchSize)
    (capacity capacity' : Nat) (world world' : σ) (past past' : List Event) (s t : Server (Continuous σ))
    (run : ((Server.continuous w { config with prefixCaching := true } capacity world).guarded
      fun s _ _ => s.thread.SharesPart ∧ s.thread.Intact).Run past s)
    (run' : (Server.continuous w { config with prefixCaching := false } capacity' world').Run past' t)
    (distinct : Collisionless w ({ config with prefixCaching := true }.construct w.caps) s.accepted)
    (r r' : Request) (accepted : r ∈ s.accepted) (accepted' : r' ∈ t.accepted) (same : r'.spec = r.spec)
    (result result' : GenResult) (delivered : .setValue r.id result ∈ past)
    (delivered' : .setValue r'.id result' ∈ past') :
    result'.text = result.text ∧ result'.reason = result.reason ∧
      result'.usage.completionTokens = result.usage.completionTokens := by
  have apart : { config with prefixCaching := true }.Apart := .inl batch
  have apart' : { config with prefixCaching := false }.Apart := .inr rfl
  have outcome := Server.outcome_of_delivered samples engine quiet apart run distinct accepted delivered
  have outcome' := Server.outcome_of_delivered samples engine quiet apart'
    (Server.unshared_run engine rfl run') (.of_off (Server.construct_prefixCaching rfl)) accepted' delivered'
  rw [SchedulerConfig.exceeded_caching] at outcome outcome'
  rw [same] at outcome'
  exact outcome.unique (samples.choice_determines _ r.spec) outcome'

/-- An engine that tells how many tokens a sequence has. -/
def Script.counting : Script :=
  { Script.letter with
    next := fun _ cells => (Int32.ofNat cells.length, false)
    piece := fun token => [UInt8.ofNat token.toInt.toNat] }

theorem Script.counting_neverThrows : Script.counting.world.NeverThrows :=
  ⟨Script.counting.world_onlyDecodeThrows, fun _ _ => rfl⟩

/-- The second prompt starts like the first, and inherits the block they share. -/
theorem caching_keeps_results_counting :
    ∃ past past' s t result result',
      ((Server.continuous Script.counting.world .sharing 4 fun _ => none).guarded fun s _ _ =>
        s.thread.SharesPart ∧ s.thread.Intact).Run past s ∧
      (Server.continuous Script.counting.world { SchedulerConfig.sharing with prefixCaching := false } 4
        fun _ => none).Run past' t ∧
      s.accepted = t.accepted ∧ Collisionless Script.counting.world
        (SchedulerConfig.sharing.construct Script.counting.caps) s.accepted ∧
      .setValue 1 result ∈ past ∧ .setValue 1 result' ∈ past' ∧
      result.usage.cachedPromptTokens = 2 ∧ result'.usage.cachedPromptTokens = 0 ∧
      result'.text = result.text ∧ result'.reason = result.reason ∧
        result'.usage.completionTokens = result.usage.completionTokens := by
  obtain ⟨past, s, run, accepted, distinct, ⟨id, result⟩, delivered, rfl, cached⟩ : ∃ past s,
      ((Server.continuous Script.counting.world .sharing 4 fun _ => none).guarded fun s _ _ =>
        s.thread.SharesPart ∧ s.thread.Intact).Run past s ∧
      (s.accepted = [{ id := 0, spec := { prompt := [1, 2, 3], maxTokens := 6 } },
          { id := 1, spec := { prompt := [1, 2, 4], maxTokens := 2 } }] ∧
        Collisionless Script.counting.world (SchedulerConfig.sharing.construct Script.counting.caps) s.accepted ∧
        ∃ d ∈ past.filterMap Event.result?, d.1 = 1 ∧ d.2.usage.cachedPromptTokens = 2) :=
    Server.exists_guarded ([.push { id := 0, spec := { prompt := [1, 2, 3], maxTokens := 6 } }] ++
      List.replicate 14 .run ++ [.push { id := 1, spec := { prompt := [1, 2, 4], maxTokens := 2 } }] ++
      List.replicate 46 .run) rfl rfl (by decide +kernel)
  obtain ⟨past', t, run', accepted', ⟨id', result'⟩, delivered', rfl, cached'⟩ : ∃ past t,
      (Server.continuous Script.counting.world { SchedulerConfig.sharing with prefixCaching := false } 4
        fun _ => none).Run past t ∧
      (t.accepted = [{ id := 0, spec := { prompt := [1, 2, 3], maxTokens := 6 } },
          { id := 1, spec := { prompt := [1, 2, 4], maxTokens := 2 } }] ∧
        ∃ d ∈ past.filterMap Event.result?, d.1 = 1 ∧ d.2.usage.cachedPromptTokens = 0) :=
    Server.exists_run ([.push { id := 0, spec := { prompt := [1, 2, 3], maxTokens := 6 } }] ++
      List.replicate 14 .run ++ [.push { id := 1, spec := { prompt := [1, 2, 4], maxTokens := 2 } }] ++
      List.replicate 46 .run) rfl rfl (by decide +kernel)
  have done := Event.mem_results.mp delivered
  have done' := Event.mem_results.mp delivered'
  refine ⟨past, past', s, t, result, result', run, run', accepted.trans accepted'.symm, distinct, done,
    done', cached, cached', ?_⟩
  refine caching_keeps_results Script.counting.world Script.counting.samples Script.counting_neverThrows
    Script.counting.world_neverCancels .sharing (by decide) 4 4 _ _ past past' s t run run' distinct
    { id := 1, spec := { prompt := [1, 2, 4], maxTokens := 2 } }
    { id := 1, spec := { prompt := [1, 2, 4], maxTokens := 2 } } ?_ ?_ rfl result result' done done'
  · rw [accepted]
    decide
  · rw [accepted']
    decide

/-- Twice the same prompt, one block long: the second run of it inherits both tokens and submits the
    last one again, so that the engine samples from three tokens and not from two. -/
theorem caching_changes_counting :
    Script.counting.world.NeverThrows ∧ Script.counting.world.NeverCancels ∧
    1 ≤ SchedulerConfig.sharing.maxBatchSize ∧ SchedulerConfig.sharing.prefixCaching = true ∧
    ∃ past past' s t result result',
      (Server.continuous Script.counting.world .sharing 4 fun _ => none).Run past s ∧
      (Server.continuous Script.counting.world { SchedulerConfig.sharing with prefixCaching := false } 4
        fun _ => none).Run past' t ∧
      s.accepted = t.accepted ∧ Collisionless Script.counting.world
        (SchedulerConfig.sharing.construct Script.counting.caps) s.accepted ∧
      .setValue 1 result ∈ past ∧ .setValue 1 result' ∈ past' ∧
      result.text = [3, 4] ∧ result'.text = [2, 3] := by
  obtain ⟨past, s, run, accepted, distinct, ⟨id, result⟩, delivered, rfl, text⟩ : ∃ past s,
      (Server.continuous Script.counting.world .sharing 4 fun _ => none).Run past s ∧
      (s.accepted = [{ id := 0, spec := { prompt := [1, 2], maxTokens := 6 } },
          { id := 1, spec := { prompt := [1, 2], maxTokens := 2 } }] ∧
        Collisionless Script.counting.world (SchedulerConfig.sharing.construct Script.counting.caps) s.accepted ∧
        ∃ d ∈ past.filterMap Event.result?, d.1 = 1 ∧ d.2.text = [3, 4]) :=
    Server.exists_run ([.push { id := 0, spec := { prompt := [1, 2], maxTokens := 6 } }] ++
      List.replicate 14 .run ++ [.push { id := 1, spec := { prompt := [1, 2], maxTokens := 2 } }] ++
      List.replicate 46 .run) rfl rfl (by decide +kernel)
  obtain ⟨past', t, run', accepted', ⟨id', result'⟩, delivered', rfl, text'⟩ : ∃ past t,
      (Server.continuous Script.counting.world { SchedulerConfig.sharing with prefixCaching := false } 4
        fun _ => none).Run past t ∧
      (t.accepted = [{ id := 0, spec := { prompt := [1, 2], maxTokens := 6 } },
          { id := 1, spec := { prompt := [1, 2], maxTokens := 2 } }] ∧
        ∃ d ∈ past.filterMap Event.result?, d.1 = 1 ∧ d.2.text = [2, 3]) :=
    Server.exists_run ([.push { id := 0, spec := { prompt := [1, 2], maxTokens := 6 } }] ++
      List.replicate 14 .run ++ [.push { id := 1, spec := { prompt := [1, 2], maxTokens := 2 } }] ++
      List.replicate 46 .run) rfl rfl (by decide +kernel)
  exact ⟨Script.counting_neverThrows, Script.counting.world_neverCancels, by decide, rfl, past, past', s, t,
    result, result', run, run', accepted.trans accepted'.symm, distinct, Event.mem_results.mp delivered,
    Event.mem_results.mp delivered', text, text'⟩

end MicroVllm
