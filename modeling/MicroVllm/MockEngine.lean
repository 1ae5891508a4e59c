import MicroVllm.Scheduler.Steering
import MicroVllm.Streaming

/-! # The mock engine

`MockModelEngine` generates a fixed response, or in echo mode the prompt a sequence was given, byte by byte.
It keeps no more of a sequence than how far it is.  Behind the continuous scheduler without prefix caching every
request that is neither refused nor cancelled gets that response, cut where its budget or its stop strings say,
whatever else is in the batch.
-/

namespace MicroVllm

/-! ## What a generation has said -/

section Said

variable {σ : Type} {w : World σ} {S : List Token → GenStep → Prop} {spec : RequestSpec} {tokens : List Token}
variable {s : SequenceState}

theorem HasStop.mono {stops : List Text} {text more : Text} (stopped : HasStop stops text) (start : text <+: more) :
    HasStop stops more := by
  obtain ⟨stop, member, some, inside⟩ := stopped
  exact ⟨stop, member, some, inside.trans start.isInfix⟩

theorem SequenceState.safePrefix_held (s : SequenceState) : s.safePrefix ≤ s.text.length - (s.holdback - 1) := by
  unfold SequenceState.safePrefix
  split
  · omega
  · split <;> omega

/-- A clean finish gives out all of the text. -/
theorem SequenceState.closed_clean (fresh : s.notified = false) (clean : s.reason = .eos ∨ s.reason = .maxTokens) :
    s.closed.emittedText = s.text := by
  rw [SequenceState.closed, if_neg (by simp [fresh]), if_pos clean]
  exact List.take_of_length_le (Nat.le_max_right _ _)

theorem SequenceState.closed_stopped (fresh : s.notified = false) (stopped : s.reason = .stopString) :
    s.closed.emittedText = s.emittedText := by
  rw [SequenceState.closed, if_neg (by simp [fresh]), if_neg (by simp [stopped])]
  rfl

/-- What a generation has said: the pieces of its tokens, in which no stop string stands, and the part of them
    that could still become one is held back. -/
theorem Generates.said (generates : Generates w S (spec.opening w) tokens s) :
    s.text = tokens.flatMap w.piece ∧ s.holdback = maxStopLen spec.stop ∧ ¬ HasStop spec.stop s.text ∧
      s.emitted ≤ s.text.length - (maxStopLen spec.stop - 1) := by
  induction generates with
  | start =>
    refine ⟨rfl, rfl, ?_, Nat.zero_le _⟩
    simp [HasStop, RequestSpec.opening, SequenceState.make]
  | @next tokens s step s' earlier sampled accepts ih =>
    obtain ⟨text, holdback, _, emitted⟩ := ih
    have same : s.spec = spec := earlier.spec_eq
    cases accepts with
    | goesOn _ _ _ clear =>
      rw [same] at clear
      refine ⟨?_, holdback, earliestStop_none.mp clear, ?_⟩
      · show s.text ++ w.piece step.token = _
        rw [text, List.flatMap_append, List.flatMap_singleton]
      · have safe := (s.append (w.piece step.token)).safePrefix_held
        have longer : (s.append (w.piece step.token)).text.length = s.text.length + (w.piece step.token).length :=
          List.length_append
        have kept : (s.append (w.piece step.token)).holdback = s.holdback := rfl
        rw [kept, holdback] at safe
        show max s.emitted (s.append (w.piece step.token)).safePrefix ≤
          (s.append (w.piece step.token)).text.length - _
        omega

end Said

/-! ## The engine -/

namespace MockModelEngine

structure Config where
  response : Text := []
  echoPrompt : Bool := false
  nCtx : Nat := 4096
  nBatch : Nat := 512
  nSeqMax : Nat := 16
deriving DecidableEq, Repr

/-- How many bytes of the response a sequence has given out and, in echo mode, the prompt it was given. -/
structure SeqState where
  genIndex : Nat := 0
  prefilled : List Token := []
deriving DecidableEq, Repr

end MockModelEngine

structure MockModelEngine where
  sequences : Nat → Option MockModelEngine.SeqState := fun _ => none
  tokensCopied : UInt64 := 0
  tokensPrefilled : UInt64 := 0

namespace MockModelEngine

def eosToken : Token := 256

def bosToken : Token := 257

def byteToken (c : UInt8) : Token := Int32.ofNat c.toNat

def caps (config : Config) : EngineCaps where
  nCtx := config.nCtx
  nBatch := config.nBatch
  nSeqMax := config.nSeqMax
  nCtxSeq := config.nCtx

def tokenize (text : Text) (addSpecial : Bool) : List Token :=
  (if addSpecial then [bosToken] else []) ++ text.map byteToken

def piece (token : Token) : Text :=
  -- control tokens render as nothing
  if token = eosToken ∨ token = bosToken then []
  else if 0 ≤ token.toInt ∧ token.toInt ≤ 0xFF then [UInt8.ofNat token.toInt.toNat]
  else []

def put (seq : Nat) (state : SeqState) (s : MockModelEngine) : MockModelEngine :=
  { s with sequences := Function.update s.sequences seq (some state) }

def beginSequence (seq : Nat) (s : MockModelEngine) : MockModelEngine := s.put seq {}

/-- In echo mode a sequence records its prompt, chunk by chunk. -/
def record (config : Config) (tokens : List Token) (state : SeqState) : SeqState :=
  if config.echoPrompt && state.genIndex == 0 then { state with prefilled := state.prefilled ++ tokens } else state

/-- What a sequence replays. -/
def response (config : Config) (state : SeqState) : List Token :=
  if config.echoPrompt then state.prefilled.filter (· ≠ bosToken) else config.response.map byteToken

def sample (config : Config) (seq : Nat) (state : SeqState) : GenStep × SeqState :=
  match (response config state)[state.genIndex]? with
  | some token => ({ seq := seq, token := token, isEog := false }, { state with genIndex := state.genIndex + 1 })
  | none => ({ seq := seq, token := eosToken, isEog := true }, state)

/-- The state an item leaves its sequence in. -/
def feed (config : Config) (item : BatchItem) (state : SeqState) : SeqState :=
  if item.sample then (sample config item.seq (record config item.tokens state)).2
  else record config item.tokens state

/-- The loop over the items.  The items before one that throws have been served. -/
def decodeFrom (config : Config) : List BatchItem → List GenStep → MockModelEngine →
    Except String (List GenStep) × MockModelEngine
  | [], steps, s => (.ok steps, s)
  | item :: items, steps, s =>
    match s.sequences item.seq with
    | none => (.error "MockModelEngine::decode on a sequence without begin_sequence", s)
    | some state =>
      let prefilled := if state.genIndex = 0 then UInt64.ofNat item.tokens.length else 0
      decodeFrom config items
        (if item.sample then steps ++ [(sample config item.seq (record config item.tokens state)).1] else steps)
        { s.put item.seq (feed config item state) with tokensPrefilled := s.tokensPrefilled + prefilled }

def decode (config : Config) (items : List BatchItem) (s : MockModelEngine) :
    Except String (List GenStep) × MockModelEngine := decodeFrom config items [] s

def releaseSequence (seq : Nat) (s : MockModelEngine) : MockModelEngine :=
  { s with sequences := Function.update s.sequences seq none }

def copySequence (src dst : Nat) (nTokens : Int) (s : MockModelEngine) : MockModelEngine :=
  if nTokens ≤ 0 ∨ src = dst then s
  else
    match s.sequences src, s.sequences dst with
    | some source, some target =>
      let take := min nTokens.toNat source.prefilled.length
      { s.put dst { target with prefilled := source.prefilled.take take } with
        tokensCopied := s.tokensCopied + UInt64.ofNat take }
    | _, _ => s

/-- The engine as the scheduler sees it.  The interface has no text of more tokens than positions. -/
def engine (config : Config) : IModelEngine MockModelEngine where
  caps := caps config
  tokenize text addSpecial :=
    if (tokenize text addSpecial).length < 2 ^ 31 then tokenize text addSpecial else []
  tokenize_length text addSpecial := by
    split
    · assumption
    · simp
  piece := piece
  beginSequence seq _ s := (.ok (), s.beginSequence seq)
  decode items s := s.decode config items
  releaseSequence seq s := s.releaseSequence seq
  copySequence src dst nTokens s := (.ok (), s.copySequence src dst nTokens)

def world {ρ : Type} (config : Config) (sinks : ITokenSink ρ) : World (MockModelEngine × ρ) :=
  (engine config).among sinks

/-! ## What it keeps of a sequence -/

section Sequences

variable {config : Config}

theorem record_nil (state : SeqState) : record config [] state = state := by
  unfold record
  split <;> simp

theorem record_append (tokens more : List Token) (state : SeqState) :
    record config (tokens ++ more) state = record config more (record config tokens state) := by
  unfold record
  by_cases records : (config.echoPrompt && state.genIndex == 0) = true
  · simp [records]
  · simp [records]

/-- A sequence as a source: the tokens it was given are counted for the positions only. -/
def source (config : Config) : Source SamplingParams Token (Nat × SeqState) where
  start _ := (0, {})
  absorb token b := (b.1 + 1, record config [token] b.2)
  draw b := (((sample config 0 b.2).1.token, (sample config 0 b.2).1.isEog), (b.1, (sample config 0 b.2).2))
  size := Prod.fst
  size_start _ := rfl
  size_absorb _ _ := rfl
  size_draw _ := rfl

theorem source_absorbs (tokens : List Token) (b : Nat × SeqState) :
    (source config).absorbs tokens b = (b.1 + tokens.length, record config tokens b.2) := by
  induction tokens generalizing b with
  | nil => rw [Source.absorbs_nil, record_nil, List.length_nil, Nat.add_zero]
  | cons token tokens ih =>
    show (source config).absorbs tokens (b.1 + 1, record config [token] b.2) = _
    rw [ih, ← record_append, List.length_cons, List.singleton_append]
    congr 1
    simp only
    omega

/-- What is sampled does not depend on the name of the sequence. -/
theorem sample_seq (seq : Nat) (state : SeqState) :
    (sample config seq state).1.token = (sample config 0 state).1.token ∧
      (sample config seq state).1.isEog = (sample config 0 state).1.isEog ∧
      (sample config seq state).2 = (sample config 0 state).2 := by
  unfold sample
  split <;> exact ⟨rfl, rfl, rfl⟩

/-- A batch of sequences that were begun is served to its end, each by itself. -/
theorem decodeFrom_served (config : Config) {items : List BatchItem} {s : MockModelEngine}
    (once : (items.map (·.seq)).Nodup) (begun : ∀ item ∈ items, ∃ state, s.sequences item.seq = some state)
    (steps : List GenStep) :
    ∃ more s', decodeFrom config items steps s = (.ok (steps ++ more), s') ∧
      (∀ seq, seq ∉ items.map (·.seq) → s'.sequences seq = s.sequences seq) ∧
      (∀ item ∈ items, ∀ state, s.sequences item.seq = some state →
        s'.sequences item.seq = some (feed config item state)) ∧
      List.Forall₂ (fun item step => ∀ state, s.sequences item.seq = some state →
        step = (sample config item.seq (record config item.tokens state)).1) (items.filter (·.sample)) more := by
  induction items generalizing s steps with
  | nil => exact ⟨[], s, by rw [List.append_nil]; rfl, fun _ _ => rfl, by simp, .nil⟩
  | cons item items ih =>
    obtain ⟨state, here⟩ := begun item List.mem_cons_self
    rw [List.map_cons, List.nodup_cons] at once
    rw [decodeFrom, here]
    simp only
    generalize next : ({ s.put item.seq (feed config item state) with tokensPrefilled := _ } : MockModelEngine) = t
    have own : t.sequences item.seq = some (feed config item state) := by
      rw [← next]
      exact Function.update_self ..
    have others : ∀ seq, seq ≠ item.seq → t.sequences seq = s.sequences seq := by
      intro seq other
      rw [← next]
      exact Function.update_of_ne other ..
    have apart : ∀ other ∈ items, other.seq ≠ item.seq := fun other member same =>
      once.1 (same ▸ List.mem_map_of_mem member)
    have begun' : ∀ other ∈ items, ∃ state, t.sequences other.seq = some state := by
      intro other member
      rw [others _ (apart other member)]
      exact begun other (List.mem_cons_of_mem _ member)
    obtain ⟨more, s', decoded, spared, fed, answers⟩ := ih once.2 begun'
      (if item.sample then steps ++ [(sample config item.seq (record config item.tokens state)).1] else steps)
    have answers' : List.Forall₂ (fun item step => ∀ state, s.sequences item.seq = some state →
        step = (sample config item.seq (record config item.tokens state)).1) (items.filter (·.sample)) more := by
      refine Lists.forall₂_imp_mem ?_ answers
      intro other member step answer state' held
      exact answer state' (by rwa [others _ (apart other (List.mem_of_mem_filter member))])
    refine ⟨if item.sample then (sample config item.seq (record config item.tokens state)).1 :: more else more,
      s', ?_, ?_, ?_, ?_⟩
    · rw [decoded]
      cases item.sample <;> simp
    · intro seq out
      rw [List.map_cons, List.mem_cons, not_or] at out
      rw [spared seq out.2, others seq out.1]
    · intro other member state' held
      rcases List.mem_cons.mp member with rfl | later
      · rw [here, Option.some.injEq] at held
        rw [spared _ once.1, own, held]
      · exact fed other later state' (by rwa [others _ (apart other later)])
    · cases samples : item.sample with
      | false =>
        rw [List.filter_cons_of_neg (by simp [samples])]
        exact answers'
      | true =>
        rw [List.filter_cons_of_pos (by simpa using samples)]
        refine .cons ?_ answers'
        intro state' held
        rw [here, Option.some.injEq] at held
        rw [held]

end Sequences

/-! ## Behind the scheduler -/

section Replies

variable {ρ : Type} {config : Config} {sinks : ITokenSink ρ}

theorem world_onlyDecodeThrows (config : Config) (sinks : ITokenSink ρ) :
    (world config sinks).OnlyDecodeThrows := ⟨fun _ _ _ => rfl, fun _ _ _ _ => rfl⟩

theorem world_decode {items : List BatchItem} {s : MockModelEngine × ρ} {steps : List GenStep} {t : MockModelEngine}
    (decoded : decodeFrom config items [] s.1 = (.ok ([] ++ steps), t)) :
    (world config sinks).decode items s = (.ok steps, t, s.2) := by
  show ((decodeFrom config items [] s.1).1, (decodeFrom config items [] s.1).2, s.2) = _
  rw [decoded]
  rfl

theorem begun_of_placed {items : List BatchItem} {s : MockModelEngine} {P : BatchItem → Prop}
    {Q : BatchItem → Nat × SeqState → Prop}
    (placed : ∀ item ∈ items, P item ∧ ∃ b : Nat × SeqState, s.sequences item.seq = some b.2 ∧ Q item b) :
    ∀ item ∈ items, ∃ state, s.sequences item.seq = some state := by
  intro item member
  obtain ⟨_, b, held, _⟩ := placed item member
  exact ⟨b.2, held⟩

/-- A batch in order only has sequences that were begun, so it is never refused. -/
def steers (config : Config) (sinks : ITokenSink ρ) : Steers (world config sinks) (source config) where
  holds s seq b := s.1.sequences seq = some b.2
  clean _ _ := True
  fails _ := False
  throws := world_onlyDecodeThrows config sinks
  onText _ _ _ _ _ := ⟨fun _ held => held, fun clean => clean⟩
  onFinish _ _ _ _ _ _ := ⟨fun _ held => held, fun clean => clean⟩
  onError _ _ _ _ _ := ⟨fun _ held => held, fun clean => clean⟩
  begins s seq params _ := by
    refine ⟨Function.update_self .., fun other ne => ⟨fun b held => ?_, fun clean => clean⟩⟩
    exact (Function.update_of_ne ne ..).trans held
  releases s seq := by
    refine ⟨trivial, fun other ne => ⟨fun b held => ?_, fun clean => clean⟩⟩
    exact (Function.update_of_ne ne ..).trans held
  decodes s s' items steps order called := by
    obtain ⟨more, t, decoded, spared, fed, answers⟩ :=
      decodeFrom_served config order.once (begun_of_placed order.placed) []
    cases (world_decode decoded).symm.trans called
    refine ⟨?_, ?_, ?_⟩
    · intro item member b held
      rw [fed item member b.2 held, feed, Source.serve, source_absorbs]
      cases item.sample with
      | false => rfl
      | true => exact congrArg some (sample_seq ..).2.2
    · refine Lists.forall₂_imp_mem ?_ answers
      intro item member step answer b held
      have samples : item.sample = true := by simpa using (List.mem_filter.mp member).2
      rw [samples, Source.serve, if_pos rfl, source_absorbs, answer b.2 held]
      exact congrArg some (Prod.ext (sample_seq ..).1.symm (sample_seq ..).2.1.symm)
    · exact fun seq out => ⟨fun b held => (spared seq out).trans held, fun clean => clean⟩
  spoils s s' items message order called := by
    obtain ⟨more, t, decoded, _⟩ := decodeFrom_served config order.once (begun_of_placed order.placed) []
    cases (world_decode decoded).symm.trans called

/-! ## The response -/

theorem toInt_byteToken (c : UInt8) : (byteToken c).toInt = c.toNat := by
  have small := c.toNat_lt
  rw [byteToken, Int32.toInt_ofNat_of_lt (by omega)]

theorem byteToken_ne_eos (c : UInt8) : byteToken c ≠ eosToken := by
  intro same
  have small := c.toNat_lt
  have value : ((c.toNat : Nat) : Int) = 256 := (toInt_byteToken c).symm.trans (congrArg Int32.toInt same)
  omega

theorem byteToken_ne_bos (c : UInt8) : byteToken c ≠ bosToken := by
  intro same
  have small := c.toNat_lt
  have value : ((c.toNat : Nat) : Int) = 257 := (toInt_byteToken c).symm.trans (congrArg Int32.toInt same)
  omega

theorem piece_byteToken (c : UInt8) : piece (byteToken c) = [c] := by
  have small := c.toNat_lt
  rw [piece, if_neg (not_or.mpr ⟨byteToken_ne_eos c, byteToken_ne_bos c⟩), toInt_byteToken, if_pos (by omega)]
  simp

theorem pieces_byteTokens (text : Text) : (text.map byteToken).flatMap piece = text := by
  induction text with
  | nil => rfl
  | cons c text ih => rw [List.map_cons, List.flatMap_cons, piece_byteToken, ih, List.singleton_append]

/-- What the engine has to say to a prompt. -/
def reply (config : Config) (prompt : Text) : Text := if config.echoPrompt then prompt else config.response

/-- Once a sequence has its prompt, it replays the reply. -/
theorem response_eq (prompt : Text) (n : Nat) :
    response config { genIndex := n, prefilled := if config.echoPrompt then tokenize prompt true else [] } =
      (reply config prompt).map byteToken := by
  unfold response reply
  cases config.echoPrompt with
  | false => rfl
  | true =>
    have others : (prompt.map byteToken).filter (· ≠ bosToken) = prompt.map byteToken := by
      refine List.filter_eq_self.mpr fun token member => ?_
      obtain ⟨c, _, rfl⟩ := List.mem_map.mp member
      simpa using byteToken_ne_bos c
    simp only [if_true, tokenize, List.singleton_append]
    rw [List.filter_cons_of_neg (by simp), others]

/-- The state of a sequence that has given out `n` bytes. -/
theorem source_before (params : SamplingParams) (prompt : Text) {n : Nat} (within : n ≤ (reply config prompt).length) :
    ((source config).before params (tokenize prompt true) n).2 =
      { genIndex := n, prefilled := if config.echoPrompt then tokenize prompt true else [] } := by
  induction n with
  | zero =>
    rw [Source.before, source_absorbs]
    show record config (tokenize prompt true) {} = _
    unfold record
    cases config.echoPrompt <;> rfl
  | succ n ih =>
    have some : ((reply config prompt).map byteToken)[n]? = some (byteToken (reply config prompt)[n]) := by
      rw [List.getElem?_map, List.getElem?_eq_getElem within, Option.map_some]
    rw [Source.before]
    show record config _ (sample config 0 ((source config).before params (tokenize prompt true) n).2).2 = _
    rw [ih (by omega), sample, response_eq, some]
    unfold record
    rw [if_neg (by simp)]

theorem source_answer (params : SamplingParams) (prompt : Text) {n : Nat} (within : n ≤ (reply config prompt).length) :
    (source config).answer params (tokenize prompt true) n =
      if within : n < (reply config prompt).length then (byteToken (reply config prompt)[n], false)
      else (eosToken, true) := by
  show ((sample config 0 ((source config).before params (tokenize prompt true) n).2).1.token,
    (sample config 0 ((source config).before params (tokenize prompt true) n).2).1.isEog) = _
  rw [source_before params prompt within, sample, response_eq, List.getElem?_map]
  by_cases more : n < (reply config prompt).length
  · rw [dif_pos more, List.getElem?_eq_getElem more]
    rfl
  · rw [dif_neg more, List.getElem?_eq_none (Nat.le_of_not_lt more)]
    rfl

/-- What a request is to get: its text, why it ended and the tokens it is billed for. -/
def outcome (config : Config) (spec : RequestSpec) : Text × FinishReason × Nat :=
  let said := (reply config spec.prompt).take spec.maxTokens.toNat
  match (List.range (said.length + 1)).find? fun k => HasStop spec.stop (said.take k) with
  -- the bytes that complete a stop string are generated, and cut off
  | some k => (cutAtStop spec.stop (said.take k), .stopString, k)
  | none =>
    (said, if (reply config spec.prompt).length ≤ spec.maxTokens.toNat then .eos else .maxTokens, said.length)

variable {spec : RequestSpec} {tokens : List Token} {s : SequenceState}

theorem drawnBy_iff (fits : (tokenize spec.prompt true).length < 2 ^ 31) {step : GenStep} :
    drawnBy (source config) (world config sinks) spec tokens step ↔
      (step.token, step.isEog) = (source config).answer spec.sampling (tokenize spec.prompt true) tokens.length := by
  have prompt : (world config sinks).tokenize spec.prompt true = tokenize spec.prompt true := if_pos fits
  rw [drawnBy, prompt]

/-- The tokens that have been accepted are the first bytes of the reply. -/
theorem generates_reply (fits : (tokenize spec.prompt true).length < 2 ^ 31)
    (generates : Generates (world config sinks) (drawnBy (source config) (world config sinks) spec)
      (spec.opening (world config sinks)) tokens s) :
    tokens.length ≤ (reply config spec.prompt).length ∧
      tokens = ((reply config spec.prompt).take tokens.length).map byteToken := by
  induction generates with
  | start => simp
  | @next tokens s step s' earlier sampled accepts ih =>
    obtain ⟨within, same⟩ := ih
    rw [drawnBy_iff fits, source_answer _ _ within] at sampled
    split at sampled
    · rename_i more
      obtain ⟨token, _⟩ := Prod.mk.inj sampled
      rw [List.length_append, List.length_singleton, token]
      refine ⟨more, ?_⟩
      rw [List.take_add_one, List.getElem?_eq_getElem more, List.map_append, ← same]
      rfl
    · -- the end of the reply is never accepted
      obtain ⟨_, eog⟩ := Prod.mk.inj sampled
      cases accepts with
      | goesOn _ more =>
        rw [eog] at more
        cases more

theorem outcome_clear (clear : ¬ HasStop spec.stop ((reply config spec.prompt).take spec.maxTokens.toNat)) :
    outcome config spec = ((reply config spec.prompt).take spec.maxTokens.toNat,
      if (reply config spec.prompt).length ≤ spec.maxTokens.toNat then .eos else .maxTokens,
      ((reply config spec.prompt).take spec.maxTokens.toNat).length) := by
  unfold outcome
  simp only
  rw [List.find?_eq_none.mpr]
  intro k _ stopped
  exact clear ((of_decide_eq_true stopped).mono (List.take_prefix _ _))

theorem outcome_stop {n : Nat} (left : n < spec.maxTokens.toNat) (more : n < (reply config spec.prompt).length)
    (clear : ¬ HasStop spec.stop ((reply config spec.prompt).take n))
    (stops : HasStop spec.stop ((reply config spec.prompt).take (n + 1))) :
    outcome config spec = (cutAtStop spec.stop ((reply config spec.prompt).take (n + 1)), .stopString, n + 1) := by
  have first : ∀ {k}, k ≤ n + 1 → ((reply config spec.prompt).take spec.maxTokens.toNat).take k =
      (reply config spec.prompt).take k := by
    intro k early
    rw [List.take_take, Nat.min_eq_left (by omega)]
  have found : (List.range (((reply config spec.prompt).take spec.maxTokens.toNat).length + 1)).find?
      (fun k => HasStop spec.stop (((reply config spec.prompt).take spec.maxTokens.toNat).take k)) = some (n + 1) := by
    rw [List.find?_range_eq_some]
    refine ⟨?_, ?_, ?_⟩
    · rw [first (Nat.le_refl _)]
      exact decide_eq_true stops
    · rw [List.mem_range, List.length_take]
      omega
    · intro k earlier
      rw [first (by omega), Bool.not_eq_true', decide_eq_false_iff_not]
      exact fun stopped => clear (stopped.mono (List.take_prefix_take_left (by omega)))
  unfold outcome
  simp only
  rw [found]
  simp only
  rw [first (Nat.le_refl _)]

/-- How every generation ends. -/
theorem concludes_reply (fits : (tokenize spec.prompt true).length < 2 ^ 31) {final : SequenceState}
    (concludes : Concludes (world config sinks) (drawnBy (source config) (world config sinks) spec)
      (spec.opening (world config sinks)) final) :
    (final.emittedText, final.reason, final.usage.completionTokens) = outcome config spec := by
  cases concludes with
  | @intro tokens s step s' earlier sampled accepts heard =>
    obtain ⟨within, same⟩ := generates_reply fits earlier
    obtain ⟨pieces, _, clear, emitted⟩ := earlier.said
    obtain ⟨counted, budget⟩ := earlier.counted rfl
    have spec_eq : s.spec = spec := earlier.spec_eq
    have notified : s.notified = false := earlier.notified_eq
    have said : s.text = (reply config spec.prompt).take tokens.length := by
      rw [pieces]
      exact (congrArg (List.flatMap piece) same).trans (pieces_byteTokens _)
    have more_of : step.isEog = false → tokens.length < (reply config spec.prompt).length := by
      intro more
      by_contra all
      rw [drawnBy_iff fits, source_answer _ _ within, dif_neg all] at sampled
      rw [(Prod.mk.inj sampled).2] at more
      cases more
    cases accepts with
    | done finished =>
      rw [earlier.unfinished rfl] at finished
      cases finished
    | eos _ eog =>
      have all : tokens.length = (reply config spec.prompt).length := by
        by_contra fewer
        rw [drawnBy_iff fits, source_answer _ _ within, dif_pos (by omega)] at sampled
        rw [(Prod.mk.inj sampled).2] at eog
        cases eog
      have budget : tokens.length ≤ spec.maxTokens.toNat := budget
      have whole : (reply config spec.prompt).take spec.maxTokens.toNat = s.text := by
        rw [said, all, List.take_length, List.take_of_length_le (by omega)]
      rw [SequenceState.closed_clean (s := s.stopWith .eos) notified (.inl rfl), SequenceState.closed_reason,
        SequenceState.closed_usage,
        outcome_clear (by rwa [whole]), whole, if_pos (by omega)]
      show (s.text, FinishReason.eos, s.usage.completionTokens) = (s.text, FinishReason.eos, s.text.length)
      rw [counted, said, List.length_take, Nat.min_eq_left within]
    | budget _ more spent =>
      rw [spec_eq, counted] at spent
      have exhausted : tokens.length = spec.maxTokens.toNat := Nat.le_antisymm budget spent
      have whole : (reply config spec.prompt).take spec.maxTokens.toNat = s.text := by rw [said, exhausted]
      have longer := more_of more
      rw [SequenceState.closed_clean (s := s.stopWith .maxTokens) notified (.inr rfl), SequenceState.closed_reason,
        SequenceState.closed_usage,
        outcome_clear (by rwa [whole]), whole, if_neg (by omega)]
      show (s.text, FinishReason.maxTokens, s.usage.completionTokens) = (s.text, FinishReason.maxTokens, s.text.length)
      rw [counted, said, List.length_take, Nat.min_eq_left within]
    | @stop stopAt _ more left found =>
      rw [spec_eq] at left found
      rw [counted] at left
      have longer := more_of more
      have text : s.text ++ (world config sinks).piece step.token =
          (reply config spec.prompt).take (tokens.length + 1) := by
        rw [drawnBy_iff fits, source_answer _ _ within, dif_pos longer] at sampled
        rw [(Prod.mk.inj sampled).1, said, List.take_add_one, List.getElem?_eq_getElem longer]
        exact congrArg _ (piece_byteToken _)
      have stopped : StopAt spec.stop (s.text ++ (world config sinks).piece step.token) stopAt := by
        have least := earliestStop_least spec.stop (s.text ++ (world config sinks).piece step.token)
        rw [found] at least
        exact least.1
      have held := stopped.held clear
      have cut : cutAtStop spec.stop ((reply config spec.prompt).take (tokens.length + 1)) =
          (s.text ++ (world config sinks).piece step.token).take stopAt := by
        rw [← text, cutAtStop, ← earliestStop_eq, found]
      have stops := hasStop_iff.mpr ⟨_, stopped⟩
      rw [text] at stops
      rw [said] at clear
      rw [outcome_stop left longer clear stops, cut, SequenceState.closed_stopped
        (s := ((s.append ((world config sinks).piece step.token)).emitUpto stopAt).stopWith .stopString) notified rfl,
        SequenceState.closed_reason, SequenceState.closed_usage]
      show ((s.text ++ (world config sinks).piece step.token).take (max s.emitted stopAt), FinishReason.stopString,
        s.usage.completionTokens + 1) = _
      rw [Nat.max_eq_right (by omega), counted]
    | cancelled => exact absurd rfl heard

end Replies

end MockModelEngine

/-- Behind the continuous scheduler without prefix caching the mock engine replies to everyone as if they were
    alone, whatever state it starts in, whatever the sinks do and however requests are chunked, batched and
    preempted, as long as every accepted request that the context check does not refuse has a token in its prompt,
    and prompt and budget have positions that fit their type.  No request fails; one that is neither refused nor
    cancelled gets the response of the engine, or its own prompt in echo mode, cut where its budget is spent or the
    first stop string is complete. -/
theorem mock_replies {ρ : Type} (config : MockModelEngine.Config) (sinks : ITokenSink ρ)
    (scheduling : SchedulerConfig) (off : scheduling.prefixCaching = false) (capacity : Nat)
    (world : MockModelEngine × ρ) (past : List Event) (s : Server (Continuous (MockModelEngine × ρ)))
    (run : (Server.continuous (MockModelEngine.world config sinks) scheduling capacity world).Run past s)
    (positioned : ∀ r ∈ s.accepted, ¬ r.Refused (MockModelEngine.world config sinks) →
      r.Positioned (MockModelEngine.world config sinks))
    (request : Request) (accepted : request ∈ s.accepted) (result : GenResult)
    (delivered : .setValue request.id result ∈ past) :
    result.reason ≠ .error ∧
      (result.reason ≠ .contextOverflow → result.reason ≠ .cancelled →
        (result.text, result.reason, result.usage.completionTokens) =
          MockModelEngine.outcome config request.spec) := by
  obtain ⟨r, member, own, fails, comes⟩ := Server.steered_results (MockModelEngine.steers config sinks) off
    (fun _ => trivial) run positioned _ result delivered
  have same : r = request := List.inj_on_of_nodup_map (Server.counts_run run).1 member accepted own
  subst same
  refine ⟨fails, fun fitted kept => ?_⟩
  obtain ⟨final, concludes, text, reason, counted⟩ := comes (not_or.mpr ⟨fails, fitted⟩) kept
  have fits : (MockModelEngine.tokenize r.spec.prompt true).length < 2 ^ 31 := by
    by_contra long
    refine (positioned r accepted fun refused => fitted ?_).nonempty (if_neg long)
    exact Server.refused_delivered run accepted refused delivered
  rw [text, reason, counted]
  exact MockModelEngine.concludes_reply fits concludes

/-- Two requests echo their prompts in one batch, and the stop string of the first is the third byte of it. -/
theorem mock_replies_echo :
    ∃ past s result,
      (Server.continuous (MockModelEngine.world { echoPrompt := true, nBatch := 3 } .mute) (.pair 16) 4
        ({}, ())).Run past s ∧
      .setValue 0 result ∈ past ∧
      (result.text, result.reason, result.usage.completionTokens) = ([97, 98], .stopString, 3) := by
  obtain ⟨past, s, run, accepted, positioned, ⟨id, result⟩, delivered, rfl, fitted, kept⟩ : ∃ past s,
      (Server.continuous (MockModelEngine.world { echoPrompt := true, nBatch := 3 } .mute) (.pair 16) 4
        ({}, ())).Run past s ∧
      ({ id := 0, spec := { prompt := [97, 98, 99, 100], stop := [[99]], maxTokens := 8 } } ∈ s.accepted ∧
        (∀ r ∈ s.accepted, ¬ r.Refused (MockModelEngine.world { echoPrompt := true, nBatch := 3 } .mute) →
          r.Positioned (MockModelEngine.world { echoPrompt := true, nBatch := 3 } .mute)) ∧
        ∃ d ∈ past.filterMap Event.result?, d.1 = 0 ∧ d.2.reason ≠ .contextOverflow ∧ d.2.reason ≠ .cancelled) :=
    Server.exists_run ([.push { id := 0, spec := { prompt := [97, 98, 99, 100], stop := [[99]], maxTokens := 8 } },
      .push { id := 1, spec := { prompt := [101, 102], maxTokens := 4 } }] ++ List.replicate 60 .run)
      rfl rfl (by decide +kernel)
  have done := Event.mem_results.mp delivered
  have replies := (mock_replies { echoPrompt := true, nBatch := 3 } .mute (.pair 16) rfl 4 _ past s run positioned _
    accepted result done).2 fitted kept
  exact ⟨past, s, result, run, done, replies.trans (by decide +kernel)⟩

end MicroVllm
