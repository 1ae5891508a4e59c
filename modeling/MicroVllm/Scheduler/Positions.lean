import MicroVllm.Scheduler.StaticSeats

/-! # Positions

The position of a batch item is computed from the length of the prompt and the number of
tokens accepted, not counted.  It is the number of tokens submitted for the slot so far:
one item after the other, positions are submitted once each and without a gap.  An empty
prompt breaks this in either mode, and so would a position beyond 32 bits.
-/

namespace MicroVllm

open Transition (Throughout)

/-- A batch has at most one item for each slot; each has tokens and begins where the tokens
    submitted for its slot since `begin_sequence` end. -/
def InPlace (before : List Event) : Event → Prop
  | .decode items _ => (items.map (·.seq)).Nodup ∧ ∀ item ∈ items,
      item.tokens ≠ [] ∧ 0 ≤ item.pos0 ∧
        ∃ slot, replay .token true before item.seq = some slot ∧ item.pos0 = slot.cells.length
  | _ => True

/-- The prompt has a token, and the positions of prompt and generation fit their type. -/
structure Request.Positioned {σ : Type} (w : World σ) (request : Request) : Prop where
  nonempty : w.tokenize request.spec.prompt true ≠ []
  small : (w.tokenize request.spec.prompt true).length + request.spec.maxTokens.toNat ≤ 2 ^ 31

instance {σ : Type} (w : World σ) (request : Request) : Decidable (request.Positioned w) :=
  decidable_of_iff (w.tokenize request.spec.prompt true ≠ [] ∧
    (w.tokenize request.spec.prompt true).length + request.spec.maxTokens.toNat ≤ 2 ^ 31)
    ⟨fun both => ⟨both.1, both.2⟩, fun positioned => ⟨positioned.nonempty, positioned.small⟩⟩

section Items

variable {σ : Type} {w : World σ} {C : Choice}

theorem feedPos_eq {s : SequenceState} (accepted : 0 < s.usage.completionTokens)
    (small : s.prompt.length + s.usage.completionTokens ≤ 2 ^ 31) :
    s.feedPos = (s.prompt.length + (s.usage.completionTokens - 1) : Nat) := by
  have sum : (s.prompt.length : Int) + s.usage.completionTokens - 1 =
      (s.prompt.length + (s.usage.completionTokens - 1) : Nat) := by
    omega
  rw [SequenceState.feedPos_eq_toPos, sum]
  exact toPos_of_lt (by omega)

/-- An item for a job that is not waiting for a step goes behind what the slot holds. -/
theorem Seat.Running.item_inPlace {job job' : Job} {item : BatchItem} {held : Option (Slot Token)}
    {tokens cells : List Token} (running : Seat.Running w C ⟨job, none, held⟩ tokens cells)
    (served : Served job job' [item]) (positioned : job.request.Positioned w) :
    item.tokens ≠ [] ∧ item.pos0 = cells.length := by
  obtain ⟨_, generates, _, phase⟩ := running
  simp only at generates phase
  have prompt : job.state.prompt = w.tokenize job.request.spec.prompt true := generates.prompt_eq
  have counted := generates.counted rfl
  have completion : job.state.usage.completionTokens = tokens.length := counted.1
  have spent : tokens.length ≤ job.request.spec.maxTokens.toNat := counted.2
  have nonempty : 0 < job.state.prompt.length := by
    rw [prompt]
    exact List.length_pos_iff.mpr positioned.nonempty
  have small := positioned.small
  rw [← prompt] at small
  cases served with
  | decode _ through =>
    simp only [SequenceState.prefilling, SequenceState.prefillRemaining, gt_iff_lt,
      decide_eq_false_iff_not] at through
    cases phase with
    | prefilling more => omega
    | decoding _ begun last =>
      -- the cells are the prompt and all tokens but the last, which is the one that is fed
      have accepted : 0 < tokens.length :=
        List.length_pos_iff.mpr (begun.resolve_left (List.ne_nil_of_length_pos nonempty))
      refine ⟨by simp [SequenceState.decodeItem], ?_⟩
      rw [RequestSpec.lead_eq positioned.nonempty, ← prompt] at last
      have length := congrArg List.length last
      simp only [List.length_append, List.length_singleton] at length
      have position : job.state.decodeItem.pos0 = job.state.feedPos := by rw [SequenceState.decodeItem]
      have behind : cells.length = job.state.prompt.length + (job.state.usage.completionTokens - 1) := by
        omega
      rw [position, feedPos_eq (by omega) (by omega), behind]
  | @prefill take _ positive within =>
    simp only [SequenceState.prefillRemaining] at within
    cases phase with
    | decoding all => omega
    | prefilling more _ holds =>
      -- the cells are the part of the prompt that has been submitted
      have length : cells.length = job.state.prefilled := by
        rw [holds, List.length_take]
        omega
      constructor
      · apply List.ne_nil_of_length_pos
        simp only [SequenceState.takePrefillChunk, SequenceState.prefillRemaining, List.length_take,
          List.length_drop]
        omega
      · have position : (job.state.takePrefillChunk take).1.pos0 = toPos job.state.prefilled := by
          rw [SequenceState.takePrefillChunk]
        rw [position, length]
        exact toPos_of_lt (by omega)

/-- A batch for jobs that wait for no step is in place. -/
theorem Fills.inPlace (w : World σ) (C : Choice) {jobs jobs' : List Job} {items : List BatchItem}
    {kv : Kv Token} (fills : Fills jobs jobs' items)
    (positioned : ∀ job ∈ jobs, ¬ job.request.Refused w → job.request.Positioned w)
    (running : ∀ job ∈ jobs, job.state.finished = false →
      ∃ tokens cells, Seat.Running w C ⟨job, none, kv job.state.seq⟩ tokens cells) :
    ∀ item ∈ items, item.tokens ≠ [] ∧ 0 ≤ item.pos0 ∧
      ∃ slot, kv item.seq = some slot ∧ item.pos0 = slot.cells.length := by
  intro item member
  obtain ⟨job, inside, owner, job', served⟩ := fills.single member
  have unfinished : job.state.finished = false := by
    cases served with
    | decode unfinished => exact unfinished
    | prefill unfinished => exact unfinished
  obtain ⟨tokens, cells, runs⟩ := running job inside unfinished
  obtain ⟨nonempty, position⟩ := runs.item_inPlace served (positioned job inside runs.unrefused)
  refine ⟨nonempty, ?_, { params := job.request.spec.sampling, cells }, ?_, position⟩
  · rw [position]
    exact Int.natCast_nonneg _
  · rw [← owner]
    exact runs.held

end Items

theorem InPlace.of_routine (before : List Event) (e : Event) (routine : e.Routine) :
    InPlace before e := by
  cases e with
  | decode => cases routine
  | _ => trivial

/-! ## Along a run -/

namespace Server

variable {σ : Type} {w : World σ} {config : SchedulerConfig} {capacity : Nat} {world : σ}
variable {past : List Event}

/-- Nothing is known of the steps: any answer will do. -/
theorem honest_any (T : Tracker w .token) (past : List Event) (port : Port σ) :
    Continuous.Honest T past (fun slot => Sampler.any slot.params slot.cells) port :=
  fun _ _ _ _ _ _ _ _ _ _ _ => trivial

theorem continuous_inPlace {s : Server (Continuous σ)} (off : config.prefixCaching = false)
    (run : (continuous w config capacity world).Run past s)
    (positioned : ∀ r ∈ s.accepted, ¬ r.Refused w → r.Positioned w) : Throughout InPlace past := by
  refine continuous_thread_invariant ?_ ?_ (accepting_each run.guarded_true positioned)
  · exact .nil
  · rintro past s thread queue run settled before move ⟨_, positioned⟩
    have start : s.thread.port.Heeds InPlace past := by
      rw [Port.Heeds, settled.silent, List.append_nil]
      exact before
    change thread.port.Heeds InPlace past
    cases move.logs with
    | routine adds => exact start.adds adds InPlace.of_routine
    | submits pc decoded =>
      apply start.snoc (Port.log_decode decoded)
      -- nobody waits for a step while the batch is built
      have fills := buildBatch_fills w.caps.nBatch (config.construct w.caps) settled.layout.nodup
      refine ⟨fills.nodup, fills.inPlace w (Sampler.any.choice w) (fun job active => ?_)
        fun job active unfinished => ?_⟩
      · exact positioned _ (requested_run run.of_guarded job (List.mem_append_left _ active))
      · have exact_ := exact_run (.history w .token true) off (honest_any _) run.of_guarded job
          (List.mem_append_left _ active)
        obtain ⟨tokens, cells, running⟩ := exact_.running unfinished
        have seated : s.thread.seat (.history w .token true) past job =
            ⟨job, none, replay .token true (past ++ s.thread.port.log) job.state.seq⟩ := by
          rw [Continuous.seat, pc]
          rfl
        rw [seated] at running
        exact ⟨tokens, cells, running⟩
    | adopts pc found within copied adds =>
      exact (start.snoc (Port.log_copy copied) trivial).adds adds InPlace.of_routine
    | @retires job active finished port =>
      rw [port]
      have adds : s.thread.port.Adds (fun e => ∀ before, InPlace before e)
          (s.thread.retire w (config.construct w.caps) job).port := by
        apply Scheduler.retire_adds
        · exact fun sink e call before => InPlace.of_routine before e (Event.Routine.of_toSink call)
        · intro e inside before
          cases e with
          | decode => cases inside
          | _ => trivial
        · exact fun _ _ _ => trivial
      exact start.adds adds fun before e blind => blind before

theorem lockstep_run {s : Server (Static σ)} (T : Tracker w .token)
    (run : (static w config capacity world).Run past s)
    (prompts : ∀ r ∈ s.accepted, ¬ r.Refused w → w.tokenize r.spec.prompt true ≠ []) :
    s.thread.Lockstep w T past :=
  (paced_run T (honest_any T) run prompts).lockstep

theorem static_inPlace {s : Server (Static σ)} (run : (static w config capacity world).Run past s)
    (positioned : ∀ r ∈ s.accepted, ¬ r.Refused w → r.Positioned w) : Throughout InPlace past := by
  refine static_thread_invariant ?_ ?_ (accepting_each run.guarded_true positioned)
  · exact .nil
  · rintro past s thread queue run settled before move ⟨_, positioned⟩
    have lockstep := lockstep_run (.history w .token true) run.of_guarded
      fun r member passed => (positioned r member passed).nonempty
    have start : s.thread.port.Heeds InPlace past := by
      rw [Port.Heeds, settled.silent, List.append_nil]
      exact before
    change thread.port.Heeds InPlace past
    cases lockstep.logs settled.layout move with
    | routine adds => exact start.adds adds InPlace.of_routine
    | submits idle fills decoded adds =>
      refine (start.snoc (Port.log_decode decoded) ⟨fills.nodup, ?_⟩).adds adds InPlace.of_routine
      refine fills.inPlace w (Sampler.any.choice w) (fun job member => positioned _ ?_) fun job member unfinished => ?_
      · apply static_known_run run.of_guarded
        apply List.mem_append_right
        exact List.mem_append_right _ (List.mem_map_of_mem member)
      · obtain ⟨tokens, cells, running⟩ := lockstep.running job member unfinished
        have seated : s.thread.seat (.history w .token true) past job =
            ⟨job, none, replay .token true (past ++ s.thread.port.log) job.state.seq⟩ := by
          rw [Static.seat, idle]
          rfl
        rw [seated] at running
        exact ⟨tokens, cells, running⟩

end Server

/-- In both modes and without prefix caching: as long as every accepted request that the context check
    does not refuse has a token in its prompt and positions that fit their type, each item is submitted
    in its place. -/
theorem positions_in_place {σ : Type} (w : World σ) (config : SchedulerConfig) (capacity : Nat)
    (world : σ) (off : config.prefixCaching = false) :
    (∀ past s, (Server.continuous w config capacity world).Run past s →
      (∀ r ∈ s.accepted, ¬ r.Refused w → r.Positioned w) → Throughout InPlace past) ∧
    (∀ past s, (Server.static w config capacity world).Run past s →
      (∀ r ∈ s.accepted, ¬ r.Refused w → r.Positioned w) → Throughout InPlace past) :=
  ⟨fun _ _ => Server.continuous_inPlace off, fun _ _ => Server.static_inPlace⟩

/-- No prefix caching, and prompts submitted one token at a time. -/
def SchedulerConfig.piecemeal : SchedulerConfig :=
  { maxBatchSize := 2, blockSize := 2, kvBlocks := 8, prefixCaching := false, prefillChunk := 1 }

/-- Two requests run to their ends in either mode. -/
theorem positions_in_place_letter :
    SchedulerConfig.piecemeal.prefixCaching = false ∧
      (∃ past s, (Server.continuous Script.letter.world .piecemeal 4 fun _ => none).Run past s ∧
        (∀ r ∈ s.accepted, ¬ r.Refused Script.letter.world → r.Positioned Script.letter.world) ∧
        Event.decode [{ seq := 0, tokens := [97], pos0 := 2 }, { seq := 1, tokens := [5], pos0 := 2 }]
          true ∈ past ∧
        Throughout InPlace past) ∧
      (∃ past s, (Server.static Script.letter.world .piecemeal 4 fun _ => none).Run past s ∧
        (∀ r ∈ s.accepted, ¬ r.Refused Script.letter.world → r.Positioned Script.letter.world) ∧
        Event.decode [{ seq := 0, tokens := [97], pos0 := 2 }, { seq := 1, tokens := [97], pos0 := 3 }]
          true ∈ past ∧
        Throughout InPlace past) := by
  have holds := positions_in_place Script.letter.world .piecemeal 4 (fun _ => none) rfl
  refine ⟨rfl, ?_, ?_⟩
  · obtain ⟨past, s, run, positioned, mixed⟩ : ∃ past s,
        (Server.continuous Script.letter.world .piecemeal 4 fun _ => none).Run past s ∧
        ((∀ r ∈ s.accepted, ¬ r.Refused Script.letter.world → r.Positioned Script.letter.world) ∧
          Event.decode [{ seq := 0, tokens := [97], pos0 := 2 },
            { seq := 1, tokens := [5], pos0 := 2 }] true ∈ past) :=
      Server.exists_run ([.push { id := 0, spec := { prompt := [1, 2], maxTokens := 2 } },
        .push { id := 1, spec := { prompt := [3, 4, 5], maxTokens := 2 } }] ++
        List.replicate 40 .run) rfl rfl (by decide +kernel)
    exact ⟨past, s, run, positioned, mixed, holds.1 past s run positioned⟩
  · obtain ⟨past, s, run, positioned, lockstep⟩ : ∃ past s,
        (Server.static Script.letter.world .piecemeal 4 fun _ => none).Run past s ∧
        ((∀ r ∈ s.accepted, ¬ r.Refused Script.letter.world → r.Positioned Script.letter.world) ∧
          Event.decode [{ seq := 0, tokens := [97], pos0 := 2 },
            { seq := 1, tokens := [97], pos0 := 3 }] true ∈ past) :=
      Server.exists_run ([.push { id := 0, spec := { prompt := [1, 2], maxTokens := 2 } },
        .push { id := 1, spec := { prompt := [3, 4, 5], maxTokens := 2 } }] ++
        List.replicate 16 .run) rfl rfl (by decide +kernel)
    exact ⟨past, s, run, positioned, lockstep, holds.2 past s run positioned⟩

/-- An accepted prompt without tokens.  The continuous loop takes it for a prompt that is
    through and feeds back a token nobody sampled, at position -1; the static loop submits an item
    without tokens. -/
theorem positions_out_of_place :
    SchedulerConfig.piecemeal.prefixCaching = false ∧
      (∃ past s, (Server.continuous Script.letter.world .piecemeal 4 fun _ => none).Run past s ∧
        Event.decode [{ seq := 0, tokens := [0], pos0 := -1 }] true ∈ past ∧
        ¬ Throughout InPlace past) ∧
      (∃ past s, (Server.static Script.letter.world .piecemeal 4 fun _ => none).Run past s ∧
        Event.decode [{ seq := 0, tokens := [], pos0 := 0 }] true ∈ past ∧
        ¬ Throughout InPlace past) := by
  refine ⟨rfl, ?_, ?_⟩
  · obtain ⟨past, s, run, fed⟩ : ∃ past s,
        (Server.continuous Script.letter.world .piecemeal 4 fun _ => none).Run past s ∧
        Event.decode [{ seq := 0, tokens := [0], pos0 := -1 }] true ∈ past :=
      Server.exists_run ([.push { id := 0, spec := { prompt := [], maxTokens := 2 } }] ++
        List.replicate 12 .run) rfl rfl (by decide +kernel)
    refine ⟨past, s, run, fed, fun throughout => ?_⟩
    obtain ⟨before, after, split⟩ := List.append_of_mem fed
    obtain ⟨_, nonnegative, _⟩ := (throughout before _ after split).2 _ List.mem_cons_self
    simp at nonnegative
  · obtain ⟨past, s, run, fed⟩ : ∃ past s,
        (Server.static Script.letter.world .piecemeal 4 fun _ => none).Run past s ∧
        Event.decode [{ seq := 0, tokens := [], pos0 := 0 }] true ∈ past :=
      Server.exists_run ([.push { id := 0, spec := { prompt := [], maxTokens := 2 } }] ++
        List.replicate 8 .run) rfl rfl (by decide +kernel)
    refine ⟨past, s, run, fed, fun throughout => ?_⟩
    obtain ⟨before, after, split⟩ := List.append_of_mem fed
    exact ((throughout before _ after split).2 _ List.mem_cons_self).1 rfl

end MicroVllm
