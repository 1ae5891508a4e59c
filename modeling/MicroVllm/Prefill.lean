import MicroVllm.Reference

/-! # A prompt in chunks

How the prompt of a sequence reaches the engine: part of it may be adopted from the cache, the rest is
submitted in chunks of whatever sizes the batches have room for, and once it is through the sampled
tokens are fed back one by one.  However the prompt was cut up, the chunks put together are the
prompt, only the last one samples, and a fed-back token goes where it would without any cutting.
-/

namespace MicroVllm

namespace SequenceState

variable {σ : Type} {w : World σ}

/-- What a sequence starts its prefill from: a prefix it adopts, or nothing. -/
def adopting (s : SequenceState) : Option Nat → SequenceState
  | none => s
  | some nTokens => s.adoptCachedPrefix nTokens

/-- Submit chunks, a budget for each, until the prompt is through or the budgets have run out. -/
def takeChunks : List Nat → SequenceState → List BatchItem × SequenceState
  | [], s => ([], s)
  | budget :: budgets, s =>
    if s.prefilling then
      let chunk := s.takePrefillChunk budget
      let rest := takeChunks budgets chunk.2
      (chunk.1 :: rest.1, rest.2)
    else ([], s)

/-- Accept one step after another; `none` if the sequence ends before the last one. -/
def acceptAll (w : World σ) : List GenStep → SequenceState → Port σ → Option (SequenceState × Port σ)
  | [], s, port => some (s, port)
  | step :: steps, s, port =>
    match s.accept w step port with
    | (true, s, port) => acceptAll w steps s port
    | (false, _, _) => none

/-! ## Chunks -/

/-- The items submit the prompt from `start` on, in order and nothing twice, and the last one of them
    samples. -/
structure Chunks (prompt : List Token) (start : Nat) (items : List BatchItem) : Prop where
  tokens : items.flatMap BatchItem.tokens = prompt.drop start
  nonempty : ∀ item ∈ items, item.tokens ≠ []
  position : ∀ before item after, items = before ++ item :: after →
    item.pos0 = toPos (start + (before.flatMap BatchItem.tokens).length : Nat)
  sample : ∀ before item after, items = before ++ item :: after → (item.sample = true ↔ after = [])

namespace Chunks

variable {prompt : List Token} {start : Nat} {items : List BatchItem}

theorem nil (through : prompt.length ≤ start) : Chunks prompt start [] where
  tokens := (List.drop_eq_nil_of_le through).symm
  nonempty := by simp
  position := by simp
  sample := by simp

/-- There are items as long as there are tokens. -/
theorem eq_nil_iff (chunks : Chunks prompt start items) : items = [] ↔ prompt.length ≤ start := by
  rw [← List.drop_eq_nil_iff, ← chunks.tokens, List.flatMap_eq_nil_iff]
  constructor
  · rintro rfl
    simp
  · intro empty
    rw [List.eq_nil_iff_forall_not_mem]
    intro item member
    exact chunks.nonempty item member (empty item member)

/-- One more chunk in front. -/
theorem cons {s : SequenceState} {budget : Nat} (positive : 0 < budget) (prefilling : s.prefilling = true)
    (rest : Chunks s.prompt (s.takePrefillChunk budget).2.prefilled items) :
    Chunks s.prompt s.prefilled ((s.takePrefillChunk budget).1 :: items) := by
  have left : 0 < s.prefillRemaining := by simpa [SequenceState.prefilling] using prefilling
  have most : s.prefillRemaining = s.prompt.length - s.prefilled := rfl
  have taken : (s.takePrefillChunk budget).1.tokens =
      (s.prompt.drop s.prefilled).take (min budget s.prefillRemaining) := rfl
  have cursor : (s.takePrefillChunk budget).2.prefilled = s.prefilled + min budget s.prefillRemaining := rfl
  have length : (s.takePrefillChunk budget).1.tokens.length = min budget s.prefillRemaining := by
    rw [taken, List.length_take, List.length_drop]
    omega
  constructor
  · rw [List.flatMap_cons, rest.tokens, taken, cursor, ← List.drop_drop, List.take_append_drop]
  · intro item member
    rcases List.mem_cons.mp member with rfl | later
    · rw [← List.length_pos_iff, length]
      omega
    · exact rest.nonempty item later
  · intro before item after here
    cases before with
    | nil =>
      cases here
      simp [takePrefillChunk]
    | cons first before =>
      cases here
      rw [rest.position before item after rfl, List.flatMap_cons, List.length_append, length, cursor]
      congr 2
      omega
  · intro before item after here
    cases before with
    | nil =>
      cases here
      have asks : (s.takePrefillChunk budget).1.sample =
          decide (s.prompt.length - (s.prefilled + min budget s.prefillRemaining) = 0) := rfl
      rw [rest.eq_nil_iff, cursor, asks, decide_eq_true_eq]
      omega
    | cons first before =>
      cases here
      exact rest.sample before item after rfl

end Chunks

theorem takeChunks_same (budgets : List Nat) (s : SequenceState) :
    s.SameOrigin (takeChunks budgets s).2 ∧ (takeChunks budgets s).2.usage = s.usage := by
  induction budgets generalizing s with
  | nil => exact ⟨.refl s, rfl⟩
  | cons budget budgets ih =>
    rw [takeChunks]
    split
    · obtain ⟨same, usage⟩ := ih (s.takePrefillChunk budget).2
      exact ⟨(takePrefillChunk_same s budget).trans same, usage⟩
    · exact ⟨.refl s, rfl⟩

/-- Chunks that get the prompt through are the prompt. -/
theorem takeChunks_chunks {budgets : List Nat} (positive : ∀ budget ∈ budgets, 0 < budget)
    {s : SequenceState} (through : (takeChunks budgets s).2.prefilling = false) :
    Chunks s.prompt s.prefilled (takeChunks budgets s).1 := by
  have done : ∀ {s : SequenceState}, s.prefilling = false → s.prompt.length ≤ s.prefilled := by
    intro s through
    simp only [prefilling, prefillRemaining, gt_iff_lt, decide_eq_false_iff_not] at through
    omega
  induction budgets generalizing s with
  | nil => exact .nil (done through)
  | cons budget budgets ih =>
    rw [takeChunks] at through ⊢
    split at through
    · rename_i prefilling
      rw [if_pos prefilling]
      have rest := ih (fun b member => positive b (List.mem_cons_of_mem _ member)) through
      exact rest.cons (positive budget List.mem_cons_self) prefilling
    · rename_i before
      rw [if_neg before]
      exact .nil (done through)

/-- A budget for each token is enough: every chunk takes one at least. -/
theorem takeChunks_through {budgets : List Nat} (positive : ∀ budget ∈ budgets, 0 < budget)
    {s : SequenceState} (enough : s.prefillRemaining ≤ budgets.length) :
    (takeChunks budgets s).2.prefilling = false := by
  induction budgets generalizing s with
  | nil => simpa [takeChunks, prefilling] using enough
  | cons budget budgets ih =>
    rw [takeChunks]
    split
    · rename_i prefilling
      have left : 0 < s.prefillRemaining := by simpa [SequenceState.prefilling] using prefilling
      have one := positive budget List.mem_cons_self
      apply ih fun b member => positive b (List.mem_cons_of_mem _ member)
      simp only [takePrefillChunk, prefillRemaining, List.length_cons] at left enough ⊢
      omega
    · rename_i through
      simpa using through

/-! ## Feeding tokens back -/

/-- What is fed back after some tokens is the last of them, at the position behind the prompt and the
    others. -/
theorem acceptAll_decodeItem {steps : List GenStep} {s t : SequenceState} {port port' : Port σ}
    (accepted : acceptAll w steps s port = some (t, port')) :
    t.prompt = s.prompt ∧ t.usage.completionTokens = s.usage.completionTokens + steps.length ∧
      ∀ last ∈ steps.getLast?, t.pending = last.token := by
  induction steps generalizing s port with
  | nil =>
    cases accepted
    simp
  | cons step steps ih =>
    rw [acceptAll] at accepted
    split at accepted
    · rename_i s' port' one
      obtain ⟨prompt, count, last⟩ := ih accepted
      cases accept_accepts one with
      | goesOn =>
        refine ⟨prompt, ?_, ?_⟩
        · rw [count, List.length_cons]
          show s.usage.completionTokens + 1 + steps.length = _
          omega
        · cases steps with
          | nil =>
            cases accepted
            simp
          | cons next steps => simpa using last
    · cases accepted

end SequenceState

/-- For every prompt with a token, every adopted prefix and all positive budgets: enough budgets get
    the prompt through, and then the items put together are the prompt from the adopted prefix on, or
    from its last token if that is adopted too; each has a token, stands at the offset of its first
    one, and samples if and only if it is the last one.  After `k ≥ 1` accepted tokens the `k`-th is fed
    back at `|prompt| + k - 1`, whatever was adopted and however the prompt was cut.  Positions are
    32-bit: an offset that does not fit wraps. -/
theorem chunked_prefill {σ : Type} (w : World σ) (seq : Nat) (spec : RequestSpec) (sink : SinkRef)
    (prompt : List Token) (given : prompt ≠ []) (cached : Option Nat) (budgets : List Nat)
    (positive : ∀ budget ∈ budgets, 0 < budget) :
    let start := min (cached.getD 0) (prompt.length - 1)
    let chunked := SequenceState.takeChunks budgets ((SequenceState.make seq spec sink prompt).adopting cached)
    (prompt.length ≤ budgets.length → chunked.2.prefilling = false) ∧
    (chunked.2.prefilling = false →
      chunked.1.flatMap BatchItem.tokens = prompt.drop start ∧ chunked.1 ≠ [] ∧
      (∀ before item after, chunked.1 = before ++ item :: after →
        item.tokens ≠ [] ∧
        item.pos0 = toPos (start + (before.flatMap BatchItem.tokens).length : Nat) ∧
        (prompt.length ≤ 2 ^ 31 → item.pos0 = ((start + (before.flatMap BatchItem.tokens).length : Nat) : Int)) ∧
        (item.sample = true ↔ after = [])) ∧
      ∀ steps last port t port', SequenceState.acceptAll w (steps ++ [last]) chunked.2 port = some (t, port') →
        t.decodeItem.tokens = [last.token] ∧
        t.decodeItem.pos0 = toPos (prompt.length + (steps ++ [last]).length - 1 : Nat) ∧
        (prompt.length + (steps ++ [last]).length ≤ 2 ^ 31 →
          t.decodeItem.pos0 = ((prompt.length + (steps ++ [last]).length - 1 : Nat) : Int))) := by
  intro start chunked
  have tokens : 0 < prompt.length := List.length_pos_iff.mpr given
  -- what the prefill starts from
  obtain ⟨state, opened⟩ : ∃ s, s = (SequenceState.make seq spec sink prompt).adopting cached := ⟨_, rfl⟩
  have opening : state.prompt = prompt ∧ state.prefilled = start ∧ state.usage.completionTokens = 0 := by
    rw [opened]
    cases cached with
    | none => simp [SequenceState.adopting, SequenceState.make, start]
    | some n => simp [SequenceState.adopting, SequenceState.make, SequenceState.adoptCachedPrefix, start, given]
  obtain ⟨whole, cursor, none⟩ := opening
  have cut : chunked = SequenceState.takeChunks budgets state := by rw [opened]
  constructor
  · intro enough
    rw [cut]
    apply SequenceState.takeChunks_through positive
    rw [SequenceState.prefillRemaining, whole]
    omega
  · intro through
    rw [cut] at through ⊢
    have chunks := SequenceState.takeChunks_chunks positive through
    rw [whole, cursor] at chunks
    have inside : start < prompt.length := by omega
    refine ⟨chunks.tokens, ?_, ?_, ?_⟩
    · intro empty
      have := chunks.eq_nil_iff.mp empty
      omega
    · intro before item after here
      have nonempty := chunks.nonempty item (by rw [here]; simp)
      have position := chunks.position before item after here
      refine ⟨nonempty, position, ?_, chunks.sample before item after here⟩
      intro small
      -- its first token is one of the prompt's, so the offset is below its length
      have within : start + (before.flatMap BatchItem.tokens).length < prompt.length := by
        have length := congrArg List.length chunks.tokens
        have one := List.length_pos_iff.mpr nonempty
        rw [here, List.flatMap_append, List.flatMap_cons, List.length_append, List.length_append,
          List.length_drop] at length
        omega
      rw [position]
      exact toPos_of_lt (by omega)
    · intro steps last port t port' accepted
      obtain ⟨same, count, pending⟩ := SequenceState.acceptAll_decodeItem accepted
      obtain ⟨origin, usage⟩ := SequenceState.takeChunks_same budgets state
      rw [origin.prompt, whole] at same
      rw [usage, none, Nat.zero_add] at count
      have fed : t.decodeItem.pos0 = toPos (prompt.length + (steps ++ [last]).length - 1 : Nat) := by
        have sum : (prompt.length : Int) + (steps ++ [last]).length - 1 =
            ((prompt.length + (steps ++ [last]).length - 1 : Nat) : Int) := by
          omega
        have position : t.decodeItem.pos0 = t.feedPos := by rw [SequenceState.decodeItem]
        rw [position, SequenceState.feedPos_eq_toPos, same, count, sum]
      refine ⟨?_, fed, ?_⟩
      · rw [SequenceState.decodeItem, pending last (by simp)]
      · intro small
        rw [fed]
        exact toPos_of_lt (by omega)

/-- A sequence with a prompt of five tokens, two of them adopted. -/
def SequenceState.adopted : SequenceState :=
  (SequenceState.make 0 { prompt := [], maxTokens := 4 } (.supplied 0) [1, 2, 3, 4, 5]).adopting (some 2)

/-- The other three go in two chunks, and the second token that is sampled is fed back behind the
    prompt and the first. -/
theorem chunked_prefill_letter :
    ([1, 2, 3, 4, 5] : List Token) ≠ [] ∧ (∀ budget ∈ [2, 2], 0 < budget) ∧
      (SequenceState.takeChunks [2, 2] .adopted).1.flatMap BatchItem.tokens = [3, 4, 5] ∧
      ∃ t port', SequenceState.acceptAll Script.letter.world [⟨0, 97, false⟩, ⟨0, 98, false⟩]
          (SequenceState.takeChunks [2, 2] .adopted).2 { world := fun _ => none } = some (t, port') ∧
        t.decodeItem.tokens = [98] ∧ t.decodeItem.pos0 = 6 := by
  have given : ([1, 2, 3, 4, 5] : List Token) ≠ [] := by decide
  have positive : ∀ budget ∈ [2, 2], 0 < budget := by decide
  obtain ⟨t, port', accepted⟩ : ∃ t port', SequenceState.acceptAll Script.letter.world
      [⟨0, 97, false⟩, ⟨0, 98, false⟩] (SequenceState.takeChunks [2, 2] .adopted).2
      { world := fun _ => none } = some (t, port') := ⟨_, _, rfl⟩
  obtain ⟨tokens, _, _, fed⟩ := (chunked_prefill Script.letter.world 0 { prompt := [], maxTokens := 4 }
    (.supplied 0) _ given (some 2) [2, 2] positive).2 rfl
  obtain ⟨last, _, position⟩ := fed [⟨0, 97, false⟩] ⟨0, 98, false⟩ _ t port' accepted
  exact ⟨given, positive, tokens, t, port', accepted, last, position (by decide)⟩

end MicroVllm
