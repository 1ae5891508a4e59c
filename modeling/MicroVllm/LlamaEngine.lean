import MicroVllm.Reference

/-! # The engine on top of the tensor backend

`LlamaModelEngine` flattens the items of a decode step into one batch of rows, asks for logits on some
of them, and samples those rows in order.  The backend's own functions are the fields of `Llama`; what
is said here holds for any of them.  Row indices are unbounded: they stay below `n_batch`.
-/

namespace MicroVllm

/-- One token of a batch, in one sequence, with whether its logits are asked for. -/
structure Row where
  token : Token
  pos : Int
  seq : Nat
  logits : Bool
deriving DecidableEq, Repr

/-- A sampler of a chain.  Single-precision numbers are bit patterns. -/
inductive SamplerStage where
  | penalties (lastN : Nat) (repeatPenalty frequency presence : UInt32)
  | greedy
  | topK (k : Int32)
  | topP (p : UInt32) (minKeep : Nat)
  | temperature (t : UInt32)
  | dist (seed : UInt32)
deriving DecidableEq, Repr

/-- The backend, with contexts `κ` and samplers `χ`.  `decode` returns a code that is zero if all is
    well; `sample` reads the logits of a row and moves the sampler on. -/
structure Llama (κ χ : Type) where
  caps : EngineCaps
  tokenize : Text → Bool → List Token
  tokenize_length : ∀ text addSpecial, (tokenize text addSpecial).length < 2 ^ 31
  piece : Token → Text
  defaultSeed : UInt32
  initChain : List SamplerStage → χ
  decode : List Row → κ → Int × κ
  sample : χ → κ → Nat → Token × χ
  isEog : Token → Bool
  seqRm : Nat → κ → κ
  seqCp : Nat → Nat → Int → Int → κ → κ

structure LlamaModelEngine (κ χ : Type) where
  context : κ
  samplers : Nat → Option χ := fun _ => none

/-- Where a sequence is to be sampled: the row in the batch. -/
structure SampleAt where
  seq : Nat
  index : Nat
deriving DecidableEq, Repr

namespace LlamaModelEngine

variable {κ χ : Type}

/-! ## Sequences -/

/-- The samplers of a request, in the order they are applied. -/
def chain (defaultSeed : UInt32) (p : SamplingParams) : List SamplerStage :=
  -- a penalty of one would change nothing, and the stage is left out
  (if Float32.ofBits p.repeatPenalty != 1 then [.penalties 64 p.repeatPenalty 0 0] else []) ++
    if Float32.ofBits p.temperature ≤ 0 then [.greedy]
    else (if p.topK > 0 then [.topK p.topK] else []) ++
      [.topP p.topP 1, .temperature p.temperature, .dist (if p.seed = 0 then defaultSeed else p.seed)]

def beginSequence (llama : Llama κ χ) (seq : Nat) (params : SamplingParams) (s : LlamaModelEngine κ χ) :
    LlamaModelEngine κ χ :=
  { s with samplers := Function.update s.samplers seq (some (llama.initChain (chain llama.defaultSeed params))) }

def releaseSequence (llama : Llama κ χ) (seq : Nat) (s : LlamaModelEngine κ χ) : LlamaModelEngine κ χ where
  samplers := Function.update s.samplers seq none
  context := llama.seqRm seq s.context

def copySequence (llama : Llama κ χ) (src dst : Nat) (nTokens : Int) (s : LlamaModelEngine κ χ) :
    LlamaModelEngine κ χ :=
  -- a sequence copied onto itself, or nothing of it
  if nTokens ≤ 0 ∨ src = dst then s
  else { s with context := llama.seqCp src dst 0 nTokens s.context }

/-! ## Decoding -/

/-- The loop over the tokens of an item, from its `k`-th token on. -/
def fillTokens (item : BatchItem) : Nat → List Token → List Row → List Row
  | _, [], rows => rows
  | k, token :: tokens, rows =>
    let row := {
      token := token
      pos := toPos (item.pos0 + toPos k)
      seq := item.seq
      logits := item.sample && k + 1 == item.tokens.length }
    fillTokens item (k + 1) tokens (rows ++ [row])

/-- The loop over the items.  The row of an item that samples is the last one so far. -/
def fill : List BatchItem → List Row → List SampleAt → List Row × List SampleAt
  | [], rows, toSample => (rows, toSample)
  | item :: items, rows, toSample =>
    let rows := fillTokens item 0 item.tokens rows
    fill items rows
      (if item.sample && !item.tokens.isEmpty then toSample ++ [⟨item.seq, rows.length - 1⟩] else toSample)

/-- The loop over the rows to sample. -/
def sampleEach (llama : Llama κ χ) : List SampleAt → LlamaModelEngine κ χ →
    Except String (List GenStep) × LlamaModelEngine κ χ
  | [], s => (.ok [], s)
  | place :: places, s =>
    match s.samplers place.seq with
    -- the samplers before this one have already moved on
    | none => (.error "decode on a sequence without begin_sequence", s)
    | some sampler =>
      let sampled := llama.sample sampler s.context place.index
      let step := { seq := place.seq, token := sampled.1, isEog := llama.isEog sampled.1 }
      let rest := sampleEach llama places
        { s with samplers := Function.update s.samplers place.seq (some sampled.2) }
      (rest.1.map (step :: ·), rest.2)

def decode (llama : Llama κ χ) (items : List BatchItem) (s : LlamaModelEngine κ χ) :
    Except String (List GenStep) × LlamaModelEngine κ χ :=
  let total := (items.map (·.tokens.length)).sum
  -- checked before the backend is called: its cells are as they were
  if total > llama.caps.nBatch then
    (.error ("decode: batch of " ++ toString total ++ " tokens exceeds n_batch=" ++
      toString llama.caps.nBatch ++ " (chunked prefill lands in Phase 4)"), s)
  else
    let filled := fill items [] []
    let decoded := llama.decode filled.1 s.context
    let s := { s with context := decoded.2 }
    -- whatever the backend did to its cells before it failed stays done
    if decoded.1 ≠ 0 then (.error ("llama_decode failed with code " ++ toString decoded.1), s)
    else sampleEach llama filled.2 s

/-- The engine as the scheduler sees it. -/
def engine (llama : Llama κ χ) : IModelEngine (LlamaModelEngine κ χ) where
  caps := llama.caps
  tokenize := llama.tokenize
  tokenize_length := llama.tokenize_length
  piece := llama.piece
  beginSequence seq params s := (.ok (), s.beginSequence llama seq params)
  decode items s := s.decode llama items
  releaseSequence seq s := s.releaseSequence llama seq
  copySequence src dst nTokens s := (.ok (), s.copySequence llama src dst nTokens)

/-! ## The batch -/

/-- The rows of an item: its tokens from `pos0` on, with logits on the last one if it samples. -/
def rowsOf (item : BatchItem) : List Row :=
  item.tokens.mapIdx fun k token =>
    { token, pos := toPos (item.pos0 + k), seq := item.seq
      logits := item.sample && k + 1 == item.tokens.length }

def flatten (items : List BatchItem) : List Row := items.flatMap rowsOf

/-- Every item with the index of the last of its tokens, in a batch that goes on after `n` rows. -/
def lastTokens : Nat → List BatchItem → List (BatchItem × Nat)
  | _, [] => []
  | n, item :: items =>
    (item, n + item.tokens.length - 1) :: lastTokens (n + item.tokens.length) items

theorem flatten_cons (item : BatchItem) (items : List BatchItem) :
    flatten (item :: items) = rowsOf item ++ flatten items := rfl

theorem toPos_add_toPos (pos : Int) (k : Nat) : toPos (pos + toPos k) = toPos (pos + k) := by
  simp [toPos, Int.add_bmod_bmod]

theorem rowsOf_length (item : BatchItem) : (rowsOf item).length = item.tokens.length := by
  simp [rowsOf]

theorem fillTokens_eq (item : BatchItem) (k : Nat) (tokens : List Token) (rows : List Row) :
    fillTokens item k tokens rows = rows ++ tokens.mapIdx fun i token =>
      { token, pos := toPos (item.pos0 + (k + i : Nat)), seq := item.seq
        logits := item.sample && k + i + 1 == item.tokens.length } := by
  induction tokens generalizing k rows with
  | nil => rw [fillTokens, List.mapIdx_nil, List.append_nil]
  | cons token tokens ih =>
    rw [fillTokens, ih, List.mapIdx_cons, toPos_add_toPos, List.append_assoc]
    simp only [Nat.add_zero, List.singleton_append, Nat.add_comm, Nat.add_left_comm]

/-- The loops leave the rows of all items, and the place of every item that samples and has a
    token. -/
theorem fill_eq (items : List BatchItem) (rows : List Row) (toSample : List SampleAt) :
    fill items rows toSample = (rows ++ flatten items, toSample ++
      ((lastTokens rows.length items).filter fun p => p.1.sample && !p.1.tokens.isEmpty).map
        fun p => ⟨p.1.seq, p.2⟩) := by
  induction items generalizing rows toSample with
  | nil => simp [fill, flatten, lastTokens]
  | cons item items ih =>
    have filled : fillTokens item 0 item.tokens rows = rows ++ rowsOf item := by
      simp [fillTokens_eq, rowsOf]
    rw [fill, filled, ih, List.length_append, rowsOf_length, flatten_cons, lastTokens, List.append_assoc,
      List.filter_cons]
    split
    · simp
    · rfl

theorem fill_nil (items : List BatchItem) :
    fill items [] [] = (flatten items,
      ((lastTokens 0 items).filter fun p => p.1.sample && !p.1.tokens.isEmpty).map
        fun p => ⟨p.1.seq, p.2⟩) :=
  fill_eq items [] []

theorem map_lastTokens (n : Nat) (items : List BatchItem) : (lastTokens n items).map Prod.fst = items := by
  induction items generalizing n with
  | nil => rfl
  | cons item items ih => rw [lastTokens, List.map_cons, ih]

/-- The row at the index of an item is that of its last token. -/
theorem flatten_lastTokens (rows : List Row) {items : List BatchItem} {p : BatchItem × Nat}
    (listed : p ∈ lastTokens rows.length items) (nonempty : p.1.tokens ≠ []) :
    (rows ++ flatten items)[p.2]? = (rowsOf p.1).getLast? := by
  induction items generalizing rows with
  | nil => cases listed
  | cons item items ih =>
    rw [flatten_cons]
    rcases List.mem_cons.mp listed with rfl | later
    · have positive : 0 < item.tokens.length := List.length_pos_iff.mpr nonempty
      rw [List.getElem?_append_right (by simp only; omega), List.getElem?_append_left
        (by simp only [rowsOf_length]; omega), List.getLast?_eq_getElem?, rowsOf_length]
      congr 1
      simp only
      omega
    · rw [← List.append_assoc]
      apply ih
      rwa [List.length_append, rowsOf_length]

/-! ## The steps -/

/-- The steps at these places, in order: each is drawn by the sampler of its own sequence, as the
    places before have left it. -/
inductive Sampled (llama : Llama κ χ) (context : κ) : (Nat → Option χ) → List SampleAt → List GenStep → Prop where
  | nil {samplers} : Sampled llama context samplers [] []
  | cons {samplers place places step steps sampler} (own : samplers place.seq = some sampler)
      (seq : step.seq = place.seq) (token : step.token = (llama.sample sampler context place.index).1)
      (isEog : step.isEog = llama.isEog step.token)
      (rest : Sampled llama context (Function.update samplers place.seq
        (some (llama.sample sampler context place.index).2)) places steps) :
      Sampled llama context samplers (place :: places) (step :: steps)

theorem Sampled.length_eq {llama : Llama κ χ} {context : κ} {samplers : Nat → Option χ} {places : List SampleAt}
    {steps : List GenStep} (sampled : Sampled llama context samplers places steps) :
    places.length = steps.length := by
  induction sampled with
  | nil => rfl
  | cons _ _ _ _ _ ih => rw [List.length_cons, List.length_cons, ih]

theorem sampleEach_sampled (llama : Llama κ χ) (places : List SampleAt) (s : LlamaModelEngine κ χ)
    (registered : ∀ place ∈ places, (s.samplers place.seq).isSome = true) :
    ∃ steps s', sampleEach llama places s = (.ok steps, s') ∧
      Sampled llama s.context s.samplers places steps := by
  induction places generalizing s with
  | nil => exact ⟨[], s, rfl, .nil⟩
  | cons place places ih =>
    obtain ⟨sampler, found⟩ := Option.isSome_iff_exists.mp (registered place List.mem_cons_self)
    let moved := Function.update s.samplers place.seq
      (some (llama.sample sampler s.context place.index).2)
    have still : ∀ other ∈ places, (moved other.seq).isSome = true := by
      intro other member
      by_cases same : other.seq = place.seq
      · simp [moved, same]
      · simp only [moved, Function.update_of_ne same]
        exact registered other (List.mem_cons_of_mem _ member)
    obtain ⟨steps, s', sampled, places⟩ := ih { s with samplers := moved } still
    let token := (llama.sample sampler s.context place.index).1
    refine ⟨{ seq := place.seq, token, isEog := llama.isEog token } :: steps, s', ?_,
      .cons found rfl rfl rfl places⟩
    rw [sampleEach, found]
    simp only
    rw [sampled]
    rfl

theorem nonempty_sublist (listed : List (BatchItem × Nat)) :
    (listed.filter fun p => p.1.sample && !p.1.tokens.isEmpty).Sublist (listed.filter (·.1.sample)) := by
  apply List.monotone_filter_right
  intro p both
  rw [Bool.and_eq_true] at both
  exact both.1

/-- Of the items that sample, those that have a token are all of them exactly if their lists have the
    same length. -/
theorem filter_nonempty_length {n : Nat} {items : List BatchItem} :
    ((lastTokens n items).filter fun p => p.1.sample && !p.1.tokens.isEmpty).length =
      ((lastTokens n items).filter (·.1.sample)).length ↔
      ∀ item ∈ items, item.sample = true → item.tokens ≠ [] := by
  have both : (lastTokens n items).filter (fun p => p.1.sample && !p.1.tokens.isEmpty) =
      ((lastTokens n items).filter (·.1.sample)).filter (!·.1.tokens.isEmpty) := by
    rw [List.filter_filter]
    simp only [Bool.and_comm]
  rw [both, List.length_filter_eq_length_iff]
  have items' := map_lastTokens n items
  constructor
  · intro all item member samples
    rw [← items'] at member
    obtain ⟨p, listed, rfl⟩ := List.mem_map.mp member
    simpa using all p (List.mem_filter.mpr ⟨listed, samples⟩)
  · intro all p listed
    obtain ⟨listed, samples⟩ := List.mem_filter.mp listed
    have member : p.1 ∈ items := by
      rw [← items']
      exact List.mem_map_of_mem listed
    simpa using all p.1 member samples

/-- A decode step of at most `n_batch` tokens, with every sequence that samples registered and a backend
    that decodes.  The batch is that of the items, one after the other.  The result has one
    step for each item that samples and has a token, in order and drawn at its last token by the
    sampler of its sequence; and so it has one for each item that samples exactly if all of those have
    a token. -/
theorem decode_contract (llama : Llama κ χ) (items : List BatchItem) (s : LlamaModelEngine κ χ)
    (fits : (items.map (·.tokens.length)).sum ≤ llama.caps.nBatch)
    (registered : ∀ item ∈ items, item.sample = true → (s.samplers item.seq).isSome = true)
    (decodes : (llama.decode (flatten items) s.context).1 = 0) :
    let context := (llama.decode (flatten items) s.context).2
    let OnePerItem (listed : List (BatchItem × Nat)) (steps : List GenStep) : Prop :=
      Sampled llama context s.samplers (listed.map fun p => ⟨p.1.seq, p.2⟩) steps
    (fill items [] []).1 = flatten items ∧
    (∀ p ∈ lastTokens 0 items, p.1.tokens ≠ [] → (flatten items)[p.2]? = (rowsOf p.1).getLast?) ∧
    ∃ steps s', s.decode llama items = (.ok steps, s') ∧
      OnePerItem ((lastTokens 0 items).filter fun p => p.1.sample && !p.1.tokens.isEmpty) steps ∧
      (OnePerItem ((lastTokens 0 items).filter (·.1.sample)) steps ↔
        ∀ item ∈ items, item.sample = true → item.tokens ≠ []) := by
  intro context OnePerItem
  refine ⟨by rw [fill_nil], fun p listed nonempty => flatten_lastTokens [] listed nonempty, ?_⟩
  obtain ⟨steps, s', sampled, places⟩ := sampleEach_sampled llama
    (((lastTokens 0 items).filter fun p => p.1.sample && !p.1.tokens.isEmpty).map fun p => ⟨p.1.seq, p.2⟩)
    { s with context := context } (by
      intro place member
      obtain ⟨p, listed, rfl⟩ := List.mem_map.mp member
      obtain ⟨listed, samples⟩ := List.mem_filter.mp listed
      rw [Bool.and_eq_true] at samples
      apply registered p.1 _ samples.1
      rw [← map_lastTokens 0 items]
      exact List.mem_map_of_mem listed)
  refine ⟨steps, s', ?_, places, ?_⟩
  · rw [decode, if_neg (by omega), fill_nil]
    simp only [decodes, ne_eq, not_true_eq_false, if_false]
    exact sampled
  · rw [← filter_nonempty_length (n := 0)]
    constructor
    · intro all
      simpa using places.length_eq.trans all.length_eq.symm
    · intro same
      rwa [← (nonempty_sublist _).eq_of_length same]

theorem sampleEach_length {llama : Llama κ χ} {places : List SampleAt} {s s' : LlamaModelEngine κ χ}
    {steps : List GenStep} (sampled : sampleEach llama places s = (.ok steps, s')) :
    steps.length = places.length := by
  induction places generalizing s steps with
  | nil =>
    cases sampled
    rfl
  | cons place places ih =>
    rw [sampleEach] at sampled
    split at sampled
    · cases sampled
    · rename_i sampler _
      let moved := some (llama.sample sampler s.context place.index).2
      cases later : sampleEach llama places
          { s with samplers := Function.update s.samplers place.seq moved } with
      | mk rest t =>
        simp only [moved] at later
        simp only [later] at sampled
        cases rest with
        | error => cases sampled
        | ok rest =>
          cases sampled
          rw [List.length_cons, List.length_cons, ih later]

/-- What the scheduler asks of an engine (`World.Answers`) this one gives for the batches in which every
    item that samples has a token, and for no others. -/
theorem answers_iff {llama : Llama κ χ} {w : World (LlamaModelEngine κ χ)}
    (backed : w.toIModelEngine = engine llama) {items : List BatchItem} {s s' : LlamaModelEngine κ χ}
    {steps : List GenStep} (decoded : w.decode items s = (.ok steps, s')) :
    (items.filter (·.sample)).length ≤ steps.length ↔
      ∀ item ∈ items, item.sample = true → item.tokens ≠ [] := by
  rw [backed] at decoded
  have sampled : steps.length =
      ((lastTokens 0 items).filter fun p => p.1.sample && !p.1.tokens.isEmpty).length := by
    simp only [engine, decode, fill_nil] at decoded
    split at decoded
    · cases decoded
    · split at decoded
      · cases decoded
      · rw [sampleEach_length decoded, List.length_map]
  have counted : (items.filter (·.sample)).length = ((lastTokens 0 items).filter (·.1.sample)).length := by
    conv_lhs => rw [← map_lastTokens 0 items, List.filter_map, List.length_map]
    rfl
  have fewer : ((lastTokens 0 items).filter fun p => p.1.sample && !p.1.tokens.isEmpty).length ≤
      ((lastTokens 0 items).filter (·.1.sample)).length :=
    (nonempty_sublist _).length_le
  rw [← filter_nonempty_length (n := 0), sampled, counted]
  omega

/-- A backend whose context is its last batch, and which samples the token of the row. -/
def echo : Llama (List Row) Unit where
  caps := { nCtx := 64, nBatch := 8, nSeqMax := 4, nCtxSeq := 32 }
  tokenize _ _ := []
  tokenize_length _ _ := by decide
  piece _ := []
  defaultSeed := 0xFFFFFFFF
  initChain _ := ()
  decode rows _ := (0, rows)
  sample _ rows index := (((rows[index]?).map Row.token).getD 0, ())
  isEog token := token = 0
  seqRm _ rows := rows
  seqCp _ _ _ _ rows := rows

/-- Sequences 0 and 1 are registered. -/
def pair : LlamaModelEngine (List Row) Unit where
  context := []
  samplers seq := if seq < 2 then some () else none

/-- What `prefill_item` gives for a prompt in slot `seq`. -/
def wholePrompt (seq : Nat) (prompt : List Token) : BatchItem :=
  (SequenceState.make seq { prompt := [] } (.collecting seq) prompt).prefillItem.1

/-- A prompt and a chunk that does not sample. -/
theorem decode_contract_echo :
    let items := [wholePrompt 0 [5, 6], { seq := 1, tokens := [7], pos0 := 3, sample := false }]
    (items.map (·.tokens.length)).sum ≤ echo.caps.nBatch ∧
      (∀ item ∈ items, item.sample = true → (pair.samplers item.seq).isSome = true) ∧
      (echo.decode (flatten items) pair.context).1 = 0 ∧
      ∃ steps s', pair.decode echo items = (.ok steps, s') ∧
        Sampled echo (flatten items) pair.samplers
          (((lastTokens 0 items).filter (·.1.sample)).map fun p => ⟨p.1.seq, p.2⟩) steps := by
  intro items
  have contract := decode_contract echo items pair (by decide) (by decide) rfl
  obtain ⟨_, _, steps, s', decoded, _, onePerItem⟩ := contract
  exact ⟨by decide, by decide, rfl, steps, s', decoded, onePerItem.mpr (by decide)⟩

/-- Two requests are prefilled, the first with a prompt of no tokens.  Both items sample, and there is
    one step: that of the second sequence, where the first one's is looked for. -/
theorem decode_misses_empty_echo :
    let items := [wholePrompt 0 [], wholePrompt 1 [5]]
    (items.map (·.tokens.length)).sum ≤ echo.caps.nBatch ∧
      (∀ item ∈ items, item.sample = true ∧ (pair.samplers item.seq).isSome = true) ∧
      (echo.decode (flatten items) pair.context).1 = 0 ∧
      (pair.decode echo items).1.toOption = some [{ seq := 1, token := 5, isEog := false }] := by
  decide

end LlamaModelEngine

end MicroVllm
