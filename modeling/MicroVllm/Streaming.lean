import MicroVllm.Emission
import MicroVllm.Generation
import MicroVllm.Lib.Occurrences

/-! # The whole stream a sequence is fed

What a sequence does to its sink is read off the tokens it is fed and nothing else: the text
they spell, the first place a stop string occurs in it, and the first count at which one of
the four reasons to stop holds.  The reference here never runs `accept`; `drive` does, and the
two agree.
-/

namespace MicroVllm

open Occurrences

/-! ## Stop strings -/

/-- A non-empty stop string stands in the text at `i`. -/
def StopAt (stops : List Text) (text : Text) (i : Nat) : Prop :=
  ∃ stop ∈ stops, stop ≠ [] ∧ OccursAt stop text i

instance (stops : List Text) (text : Text) : DecidablePred (StopAt stops text) :=
  fun i => inferInstanceAs (Decidable (∃ stop ∈ stops, stop ≠ [] ∧ OccursAt stop text i))

/-- The text contains a non-empty stop string. -/
def HasStop (stops : List Text) (text : Text) : Prop :=
  ∃ stop ∈ stops, stop ≠ [] ∧ stop <:+: text

instance (stops : List Text) (text : Text) : Decidable (HasStop stops text) :=
  inferInstanceAs (Decidable (∃ stop ∈ stops, stop ≠ [] ∧ stop <:+: text))

/-- The first place of any stop string, tried position by position. -/
def firstStop (stops : List Text) (text : Text) : Option Nat :=
  (List.range text.length).find? fun i => StopAt stops text i

/-- The text up to the first stop string. -/
def cutAtStop (stops : List Text) (text : Text) : Text :=
  match firstStop stops text with
  | some i => text.take i
  | none => text

theorem hasStop_iff {stops : List Text} {text : Text} :
    HasStop stops text ↔ ∃ i, StopAt stops text i := by
  constructor
  · rintro ⟨stop, member, some, inside⟩
    obtain ⟨i, occurs⟩ := OccursAt.infix_iff.mp inside
    exact ⟨i, stop, member, some, occurs⟩
  · rintro ⟨i, stop, member, some, occurs⟩
    exact ⟨stop, member, some, OccursAt.infix_iff.mpr ⟨i, occurs⟩⟩

theorem StopAt.lt_length {stops : List Text} {text : Text} {i : Nat} (stopped : StopAt stops text i) :
    i < text.length := by
  obtain ⟨stop, _, some, occurs⟩ := stopped
  have fits := occurs.length_le some
  have positive := List.length_pos_iff.mpr some
  omega

theorem findText_least {pattern : Text} (some : pattern ≠ []) (text : Text) :
    Least (OccursAt pattern text) (findText pattern text) := by
  induction text with
  | nil =>
    rw [findText, if_neg some]
    intro i occurs
    have fits := occurs.length_le some
    have positive := List.length_pos_iff.mpr some
    rw [List.length_nil] at fits
    omega
  | cons byte rest ih =>
    rw [findText]
    split
    · rename_i here
      exact ⟨List.isPrefixOf_iff_prefix.mp here, fun j before => absurd before (Nat.not_lt_zero j)⟩
    · rename_i away
      have away : ¬ OccursAt pattern (byte :: rest) 0 :=
        fun here => away (List.isPrefixOf_iff_prefix.mpr here)
      cases found : findText pattern rest with
      | none =>
        rw [found] at ih
        intro i occurs
        cases i with
        | zero => exact away occurs
        | succ i => exact ih i occurs
      | some n =>
        rw [found] at ih
        refine ⟨ih.1, fun j before occurs => ?_⟩
        cases j with
        | zero => exact away occurs
        | succ j => exact ih.2 j (Nat.lt_of_succ_lt_succ before) occurs

theorem minPos_least {P Q : Nat → Prop} {a b : Option Nat} (first : Least P a) (second : Least Q b) :
    Least (fun i => P i ∨ Q i) (minPos a b) := by
  cases a with
  | none => exact second.congr fun i => (or_iff_right (first i)).symm
  | some x =>
    cases b with
    | none => exact Least.congr first fun i => (or_iff_left (second i)).symm
    | some y =>
      show Least _ (some (min x y))
      constructor
      · by_cases less : x ≤ y
        · rw [Nat.min_eq_left less]
          exact .inl first.1
        · rw [Nat.min_eq_right (by omega)]
          exact .inr second.1
      · intro j before
        exact not_or.mpr ⟨first.2 j (by omega), second.2 j (by omega)⟩

theorem earliestStop_least (stops : List Text) (text : Text) :
    Least (StopAt stops text) (earliestStop text stops) := by
  -- the fold has seen the stop strings of `seen`
  have fold : ∀ (rest seen : List Text) best, Least (StopAt seen text) best →
      Least (StopAt (seen ++ rest) text) (rest.foldl (fun best stop =>
        if stop = [] then best else minPos best (findText stop text)) best) := by
    intro rest
    induction rest with
    | nil =>
      intro seen best least
      rwa [List.append_nil]
    | cons stop rest ih =>
      intro seen best least
      rw [List.foldl_cons, List.append_cons]
      apply ih
      split
      · rename_i empty
        apply least.congr
        intro i
        simp [StopAt, empty]
      · rename_i some
        apply (minPos_least least (findText_least some text)).congr
        intro i
        simp [StopAt, or_and_right, exists_or, some]
  exact fold stops [] none fun i => by simp [StopAt]

theorem earliestStop_eq (stops : List Text) (text : Text) :
    earliestStop text stops = firstStop stops text :=
  (earliestStop_least stops text).unique (Least.find_range fun _ => StopAt.lt_length)

theorem earliestStop_none {stops : List Text} {text : Text} :
    earliestStop text stops = none ↔ ¬ HasStop stops text := by
  have least := earliestStop_least stops text
  rw [hasStop_iff]
  constructor
  · intro clear
    rw [clear] at least
    exact fun ⟨i, stopped⟩ => least i stopped
  · intro clear
    cases found : earliestStop text stops with
    | none => rfl
    | some i =>
      rw [found] at least
      exact absurd ⟨i, least.1⟩ clear

theorem cutAtStop_of_clear {stops : List Text} {text : Text} (clear : ¬ HasStop stops text) :
    cutAtStop stops text = text := by
  rw [cutAtStop, ← earliestStop_eq, earliestStop_none.mpr clear]

theorem length_le_maxStopLen {stops : List Text} {stop : Text} (member : stop ∈ stops) :
    stop.length ≤ maxStopLen stops := by
  have fold : ∀ (stops : List Text) m, m ≤ stops.foldl (fun m stop => max m stop.length) m ∧
      ∀ stop ∈ stops, stop.length ≤ stops.foldl (fun m stop => max m stop.length) m := by
    intro stops
    induction stops with
    | nil => exact fun m => ⟨Nat.le_refl m, fun stop inside => nomatch inside⟩
    | cons head stops ih =>
      intro m
      obtain ⟨grows, bounds⟩ := ih (max m head.length)
      rw [List.foldl_cons]
      refine ⟨by omega, fun stop inside => ?_⟩
      cases inside with
      | head => omega
      | tail _ inside => exact bounds stop inside
  exact (fold stops 0).2 stop member

/-- A stop string that the new piece completes begins in the bytes that were held back, or in
    the piece. -/
theorem StopAt.held {stops : List Text} {text piece : Text} {i : Nat} (clear : ¬ HasStop stops text)
    (stopped : StopAt stops (text ++ piece) i) : text.length - (maxStopLen stops - 1) ≤ i := by
  obtain ⟨stop, member, some, occurs⟩ := stopped
  have longest := length_le_maxStopLen member
  have spans : ¬ i + stop.length ≤ text.length := fun within =>
    clear (hasStop_iff.mpr ⟨i, stop, member, some, occurs.of_append within⟩)
  omega

/-! ## What the sink is told -/

section Reference

variable {σ : Type} (w : World σ)

/-- The bytes from `a` to `b`, if there are any, as the deltas they make. -/
def slice (text : Text) (a b : Nat) : List Text :=
  if a < b then [(text.drop a).take (b - a)] else []

/-- The world once a sink has been sent these deltas. -/
def World.told (sink : SinkRef) (deltas : List Text) (world : σ) : σ :=
  deltas.foldl (fun world delta => w.onText sink delta world) world

/-- What a sequence is fed: the steps sampled for it, and the state the world is in when each
    of them is accepted.  Whether the sink then asks for cancellation is up to that state. -/
structure Feed (σ : Type) where
  step : Nat → GenStep
  world : Nat → σ

namespace Feed

variable (spec : RequestSpec) (sink : SinkRef) (feed : Feed σ)

/-- The text of the first `n` tokens. -/
def text (n : Nat) : Text := (List.range n).flatMap fun i => w.piece (feed.step i).token

/-- How much of that text no stop string can still begin in. -/
def safe (n : Nat) : Nat := (feed.text w n).length - (maxStopLen spec.stop - 1)

/-- What is sent for the first `n` tokens as long as there is no reason to stop. -/
def deltas (n : Nat) : List Text :=
  (List.range n).flatMap fun i => slice (feed.text w (i + 1)) (feed.safe w spec i) (feed.safe w spec (i + 1))

/-- The sink asks for cancellation right after the `n`-th token has been accepted. -/
def heard : Nat → Bool
  | 0 => false
  | n + 1 => w.cancelled sink (w.told sink
      (slice (feed.text w (n + 1)) (feed.safe w spec n) (feed.safe w spec (n + 1))) (feed.world n))

/-- Why `n` tokens are the last ones, if they are. -/
def endsAt (n : Nat) : Option FinishReason :=
  if HasStop spec.stop (feed.text w n) then some .stopString
  else if feed.heard w spec sink n then some .cancelled
  else if (feed.step n).isEog then some .eos
  else if n = spec.maxTokens.toNat then some .maxTokens
  else none

/-- The deltas of a whole generation of `n` tokens: a stop string cuts the last flush short,
    any other reason sends what was held back. -/
def sent (n : Nat) : FinishReason → List Text
  | .stopString => feed.deltas w spec (n - 1) ++ slice (feed.text w n) (feed.safe w spec (n - 1))
      (cutAtStop spec.stop (feed.text w n)).length
  | _ => feed.deltas w spec n ++ slice (feed.text w n) (feed.safe w spec n) (feed.text w n).length

end Feed

/-- `accept` until it returns false, then `finish`; `none` when the fuel is spent. -/
def drive (feed : Feed σ) (fuel n : Nat) (s : SequenceState) (port : Port σ) :
    Option (SequenceState × Port σ) :=
  match s.accept w (feed.step n) { port with world := feed.world n } with
  | (false, s, port) => some (s.finish w port)
  | (true, s, port) =>
    match fuel with
    | 0 => none
    | fuel + 1 => drive feed fuel (n + 1) s port

/-- The state and the port after `n` calls of `accept` that all returned true. -/
inductive Fed (feed : Feed σ) (s : SequenceState) (port : Port σ) : Nat → SequenceState → Port σ → Prop where
  | start : Fed feed s port 0 s port
  | next {n t t' p p'} (earlier : Fed feed s port n t p)
      (accepted : t.accept w (feed.step n) { p with world := feed.world n } = (true, t', p')) :
      Fed feed s port (n + 1) t' p'

end Reference

theorem slice_flatten (text : Text) (a b : Nat) :
    text.take a ++ (slice text a b).flatten = text.take (max a b) := by
  unfold slice
  split
  · rw [List.flatten_singleton, ← List.take_add]
    congr 1
    omega
  · rw [List.flatten_nil, List.append_nil, Nat.max_eq_left (by omega)]

theorem streamed_onText (sink : SinkRef) (deltas : List Text) :
    streamed sink (deltas.map (.onText sink)) = deltas.flatten := by
  simp [streamed, List.filterMap_map, Function.comp_def, Event.deltaTo]

section Driving

variable {σ : Type} {w : World σ} {spec : RequestSpec} {sink : SinkRef} {feed : Feed σ}

/-- A sink that is sent some deltas. -/
def Port.say (w : World σ) (sink : SinkRef) (deltas : List Text) (port : Port σ) : Port σ :=
  { world := w.told sink deltas port.world, log := port.log ++ deltas.map (.onText sink) }

theorem SequenceState.flushUpto_eq (s : SequenceState) (upto : Nat) (port : Port σ) :
    s.flushUpto w upto port = (s.emitUpto upto, port.say w s.sink (slice s.text s.emitted upto)) := by
  unfold flushUpto slice emitUpto
  split
  · rw [Nat.max_eq_right (by omega)]
    rfl
  · rw [Nat.max_eq_left (by omega)]
    simp [Port.say, World.told]

/-- Accepting a token there is room for, with what the sink is sent written out. -/
theorem SequenceState.accept_append {s : SequenceState} {step : GenStep} {port : Port σ}
    (unfinished : s.finished = false) (more : step.isEog = false)
    (left : s.usage.completionTokens < s.spec.maxTokens.toNat) :
    s.accept w step port =
      match earliestStop (s.append (w.piece step.token)).text s.spec.stop with
      | some i => (false, ((s.append (w.piece step.token)).emitUpto i).stopWith .stopString,
          port.say w s.sink (slice (s.append (w.piece step.token)).text s.emitted i))
      | none =>
        let safe := (s.append (w.piece step.token)).safePrefix
        let told := port.say w s.sink (slice (s.append (w.piece step.token)).text s.emitted safe)
        if w.cancelled s.sink told.world then
          (false, (((s.append (w.piece step.token)).emitUpto safe).emitUpto
              (s.append (w.piece step.token)).text.length).stopWith .cancelled,
            told.say w s.sink (slice (s.append (w.piece step.token)).text (max s.emitted safe)
              (s.append (w.piece step.token)).text.length))
        else (true, { (s.append (w.piece step.token)).emitUpto safe with pending := step.token }, told) := by
  unfold accept
  rw [if_neg (by simp [unfinished]), if_neg (by simp [more]), if_neg (Nat.not_le.mpr left)]
  simp only [flushUpto_eq]
  rfl

/-- A sequence that stops of its own accord tells the sink so, and before that sends what it
    held back if the finish is a clean one. -/
theorem SequenceState.finish_log {s : SequenceState} (unnotified : s.notified = false)
    (ended : s.reason ≠ .error ∧ s.reason ≠ .contextOverflow) (port : Port σ) :
    (s.finish w port).2.log = port.log ++ (if s.reason = .eos ∨ s.reason = .maxTokens then
        slice s.text s.emitted s.text.length else []).map (.onText s.sink) ++
      [.onFinish s.sink s.reason s.usage] := by
  unfold finish
  rw [if_neg (by simp [unnotified])]
  simp only
  rw [if_neg (by simp [ended])]
  split
  · rw [flushUpto_eq]
    rfl
  · simp [Port.onFinish]

namespace Feed

theorem text_succ (n : Nat) : feed.text w (n + 1) = feed.text w n ++ w.piece (feed.step n).token := by
  simp [text, List.range_succ]

theorem safe_le (n : Nat) : feed.safe w spec n ≤ (feed.text w n).length := Nat.sub_le _ _

theorem safe_mono (n : Nat) : feed.safe w spec n ≤ feed.safe w spec (n + 1) := by
  unfold safe
  rw [text_succ, List.length_append]
  omega

theorem deltas_succ (n : Nat) : feed.deltas w spec (n + 1) = feed.deltas w spec n ++
    slice (feed.text w (n + 1)) (feed.safe w spec n) (feed.safe w spec (n + 1)) := by
  simp [deltas, List.range_succ]

/-- The safe bytes have gone out, and no others. -/
theorem deltas_flatten (n : Nat) :
    (feed.deltas w spec n).flatten = (feed.text w n).take (feed.safe w spec n) := by
  induction n with
  | zero => simp [deltas, text]
  | succ n ih =>
    have before : (feed.text w n).take (feed.safe w spec n) =
        (feed.text w (n + 1)).take (feed.safe w spec n) := by
      rw [text_succ, List.take_append_of_le_length (safe_le n)]
    rw [deltas_succ, List.flatten_append, ih, before, slice_flatten, Nat.max_eq_right (safe_mono n)]

/-- After `n` tokens without a reason to stop: the counters of the sequence are those of the
    reference, and the sink has been sent the safe bytes. -/
structure Holds (w : World σ) (spec : RequestSpec) (sink : SinkRef) (feed : Feed σ) (start : Port σ)
    (n : Nat) (s : SequenceState) (port : Port σ) : Prop where
  asked : s.spec = spec
  toSink : s.sink = sink
  holdback : s.holdback = maxStopLen spec.stop
  text : s.text = feed.text w n
  count : s.usage.completionTokens = n
  within : n ≤ spec.maxTokens.toNat
  emitted : s.emitted = feed.safe w spec n
  unfinished : s.finished = false
  unnotified : s.notified = false
  clear : ¬ HasStop spec.stop (feed.text w n)
  unheard : feed.heard w spec sink n = false
  log : port.log = start.log ++ (feed.deltas w spec n).map (.onText sink)

/-- How the reference has it that a generation ends. -/
structure Done (w : World σ) (spec : RequestSpec) (sink : SinkRef) (feed : Feed σ) (start : Port σ)
    (k : Nat) (reason : FinishReason) (s : SequenceState) (port : Port σ) : Prop where
  count : s.usage.completionTokens = k
  names : s.reason = reason
  log : port.log = start.log ++ (feed.sent w spec k reason).map (.onText sink) ++
    [.onFinish sink reason s.usage]

variable {start port : Port σ} {s : SequenceState} {n : Nat}

theorem Holds.first (seq : Nat) (spec : RequestSpec) (sink : SinkRef) (prompt : List Token)
    (port : Port σ) : Holds w spec sink feed port 0 (.make seq spec sink prompt) port where
  asked := rfl
  toSink := rfl
  holdback := rfl
  text := rfl
  count := rfl
  within := Nat.zero_le _
  emitted := (Nat.zero_sub _).symm
  unfinished := rfl
  unnotified := rfl
  clear := by simp [HasStop, Feed.text]
  unheard := rfl
  log := (List.append_nil _).symm

theorem Holds.append_text (holds : Holds w spec sink feed start n s port) :
    (s.append (w.piece (feed.step n).token)).text = feed.text w (n + 1) := by
  rw [text_succ, ← holds.text]
  rfl

theorem Holds.append_safe (holds : Holds w spec sink feed start n s port) :
    (s.append (w.piece (feed.step n).token)).safePrefix = feed.safe w spec (n + 1) := by
  unfold SequenceState.safePrefix safe
  rw [holds.append_text]
  show (if s.holdback = 0 then _ else if _ ≥ s.holdback - 1 then _ - (s.holdback - 1) else 0) = _
  rw [holds.holdback]
  split
  · omega
  · split <;> omega

theorem Holds.endsAt_eog (holds : Holds w spec sink feed start n s port)
    (eog : (feed.step n).isEog = true) : feed.endsAt w spec sink n = some .eos := by
  simp [endsAt, holds.clear, holds.unheard, eog]

theorem Holds.endsAt_spent (holds : Holds w spec sink feed start n s port)
    (more : (feed.step n).isEog = false) (spent : n = spec.maxTokens.toNat) :
    feed.endsAt w spec sink n = some .maxTokens := by
  rw [endsAt, if_neg holds.clear, if_neg (by simp [holds.unheard]), if_neg (by simp [more]), if_pos spent]

theorem Holds.endsAt_none (holds : Holds w spec sink feed start n s port)
    (more : (feed.step n).isEog = false) (left : n < spec.maxTokens.toNat) :
    feed.endsAt w spec sink n = none := by
  simp [endsAt, holds.clear, holds.unheard, more, Nat.ne_of_lt left]

theorem finish_done {k : Nat} (reason : FinishReason) (unnotified : s.notified = false)
    (names : s.reason = reason) (toSink : s.sink = sink) (count : s.usage.completionTokens = k)
    (ended : reason ≠ .error ∧ reason ≠ .contextOverflow)
    (log : port.log ++ (if reason = .eos ∨ reason = .maxTokens then
        slice s.text s.emitted s.text.length else []).map (.onText sink) =
      start.log ++ (feed.sent w spec k reason).map (.onText sink)) :
    Done w spec sink feed start k reason (s.finish w port).1 (s.finish w port).2 := by
  subst names toSink
  have state := SequenceState.finish_state (w := w) s port
  constructor
  · rw [state, SequenceState.closed_usage, count]
  · rw [state, SequenceState.closed_reason]
  · rw [SequenceState.finish_log unnotified ended, log, state, SequenceState.closed_usage]

/-- A clean finish sends what is still held back. -/
theorem Holds.finish_clean (holds : Holds w spec sink feed start n s port) {reason : FinishReason}
    (clean : reason = .eos ∨ reason = .maxTokens) :
    Done w spec sink feed start n reason ((s.stopWith reason).finish w port).1
      ((s.stopWith reason).finish w port).2 := by
  apply finish_done (s := s.stopWith reason) reason holds.unnotified rfl holds.toSink holds.count
  · rcases clean with rfl | rfl <;> simp
  · have all : feed.sent w spec n reason = feed.deltas w spec n ++
        slice (feed.text w n) (feed.safe w spec n) (feed.text w n).length := by
      rcases clean with rfl | rfl <;> rfl
    show _ ++ List.map _ (if _ then slice s.text s.emitted s.text.length else []) = _
    rw [if_pos clean, holds.log, holds.text, holds.emitted, all, List.map_append, List.append_assoc]

/-- A stop string cuts the flush short, and what is behind it stays behind. -/
theorem Holds.finish_stop (holds : Holds w spec sink feed start n s port) {i : Nat}
    (found : earliestStop (feed.text w (n + 1)) spec.stop = some i) :
    let s' := ((s.append (w.piece (feed.step n).token)).emitUpto i).stopWith .stopString
    let port' := port.say w sink (slice (feed.text w (n + 1)) (feed.safe w spec n) i)
    Done w spec sink feed start (n + 1) .stopString (s'.finish w port').1 (s'.finish w port').2 := by
  intro s' port'
  have length : (cutAtStop spec.stop (feed.text w (n + 1))).length = i := by
    have inside := earliestStop_le found
    rw [earliestStop_eq] at found
    rw [cutAtStop, found]
    exact List.length_take_of_le inside
  apply finish_done (s := s') .stopString holds.unnotified rfl holds.toSink
  · exact congrArg (· + 1) holds.count
  · simp
  · show port.log ++ _ ++ [] = _
    rw [holds.log, sent, length, Nat.add_sub_cancel, List.map_append, List.append_nil, List.append_assoc]

/-- Cancellation flushes the safe bytes first and then the rest. -/
theorem Holds.finish_cancelled (holds : Holds w spec sink feed start n s port) :
    let s' := (((s.append (w.piece (feed.step n).token)).emitUpto (feed.safe w spec (n + 1))).emitUpto
      (feed.text w (n + 1)).length).stopWith .cancelled
    let port' := (port.say w sink (slice (feed.text w (n + 1)) (feed.safe w spec n)
      (feed.safe w spec (n + 1)))).say w sink (slice (feed.text w (n + 1)) (feed.safe w spec (n + 1))
        (feed.text w (n + 1)).length)
    Done w spec sink feed start (n + 1) .cancelled (s'.finish w port').1 (s'.finish w port').2 := by
  intro s' port'
  apply finish_done (s := s') .cancelled holds.unnotified rfl holds.toSink
  · exact congrArg (· + 1) holds.count
  · simp
  · show port.log ++ _ ++ _ ++ [] = _
    rw [holds.log, sent, deltas_succ]
    · simp only [List.map_append, List.append_nil, List.append_assoc]
    · simp

/-- Going on: the safe bytes are sent, and the sink does not ask for cancellation. -/
theorem Holds.goes_on (holds : Holds w spec sink feed start n s port) (left : n < spec.maxTokens.toNat)
    (clear : ¬ HasStop spec.stop (feed.text w (n + 1))) (unheard : feed.heard w spec sink (n + 1) = false) :
    Holds w spec sink feed start (n + 1)
      { (s.append (w.piece (feed.step n).token)).emitUpto (feed.safe w spec (n + 1)) with
        pending := (feed.step n).token }
      (port.say w sink (slice (feed.text w (n + 1)) (feed.safe w spec n) (feed.safe w spec (n + 1)))) where
  asked := holds.asked
  toSink := holds.toSink
  holdback := holds.holdback
  text := holds.append_text
  count := congrArg (· + 1) holds.count
  within := left
  emitted := by
    show max s.emitted _ = _
    rw [holds.emitted, Nat.max_eq_right (safe_mono n)]
  unfinished := holds.unfinished
  unnotified := holds.unnotified
  clear := clear
  unheard := unheard
  log := by
    show port.log ++ _ = _
    rw [holds.log, deltas_succ, List.map_append, List.append_assoc]

/-- One more call of `accept`: the sequence goes on as the reference does, or both end. -/
theorem Holds.accept (holds : Holds w spec sink feed start n s port) (arrives : port.world = feed.world n)
    {goesOn : Bool} {s' : SequenceState} {port' : Port σ}
    (accepted : s.accept w (feed.step n) port = (goesOn, s', port')) :
    (goesOn = true ∧ feed.endsAt w spec sink n = none ∧
      Holds w spec sink feed start (n + 1) s' port') ∨
    (goesOn = false ∧ ∃ k reason, (k = n ∨ k = n + 1 ∧ feed.endsAt w spec sink n = none) ∧
      feed.endsAt w spec sink k = some reason ∧
      Done w spec sink feed start k reason (s'.finish w port').1 (s'.finish w port').2) := by
  -- the tests of `accept`, in its order
  by_cases eog : (feed.step n).isEog = true
  · rw [SequenceState.accept, if_neg (by simp [holds.unfinished]), if_pos eog] at accepted
    cases accepted
    exact .inr ⟨rfl, n, .eos, .inl rfl, holds.endsAt_eog eog, holds.finish_clean (.inl rfl)⟩
  · have more : (feed.step n).isEog = false := by simpa using eog
    by_cases spent : spec.maxTokens.toNat ≤ n
    · rw [SequenceState.accept, if_neg (by simp [holds.unfinished]), if_neg eog, holds.count, holds.asked,
        if_pos spent] at accepted
      cases accepted
      have exactly : n = spec.maxTokens.toNat := Nat.le_antisymm holds.within spent
      exact .inr ⟨rfl, n, .maxTokens, .inl rfl, holds.endsAt_spent more exactly,
        holds.finish_clean (.inr rfl)⟩
    · have left : n < spec.maxTokens.toNat := Nat.lt_of_not_le spent
      have goes := holds.endsAt_none more left
      have room : s.usage.completionTokens < s.spec.maxTokens.toNat := by
        rw [holds.count, holds.asked]
        exact left
      rw [SequenceState.accept_append holds.unfinished more room, holds.append_text, holds.append_safe,
        holds.toSink, holds.emitted, holds.asked] at accepted
      cases found : earliestStop (feed.text w (n + 1)) spec.stop with
      | some i =>
        rw [found] at accepted
        cases accepted
        have stops : HasStop spec.stop (feed.text w (n + 1)) := by
          by_contra clear
          rw [earliestStop_none.mpr clear] at found
          cases found
        exact .inr ⟨rfl, n + 1, .stopString, .inr ⟨rfl, goes⟩, if_pos stops, holds.finish_stop found⟩
      | none =>
        have clear := earliestStop_none.mp found
        -- the sink is asked after it has been told the safe bytes
        have asks : w.cancelled sink (port.say w sink (slice (feed.text w (n + 1)) (feed.safe w spec n)
            (feed.safe w spec (n + 1)))).world = feed.heard w spec sink (n + 1) := by
          show w.cancelled sink (w.told sink _ port.world) = _
          rw [arrives]
          rfl
        rw [found] at accepted
        simp only [asks, Nat.max_eq_right (safe_mono n)] at accepted
        by_cases heard : feed.heard w spec sink (n + 1) = true
        · rw [if_pos heard] at accepted
          cases accepted
          have ends : feed.endsAt w spec sink (n + 1) = some .cancelled := by
            rw [endsAt, if_neg clear, if_pos heard]
          exact .inr ⟨rfl, n + 1, .cancelled, .inr ⟨rfl, goes⟩, ends, holds.finish_cancelled⟩
        · rw [if_neg heard] at accepted
          cases accepted
          exact .inl ⟨rfl, goes, holds.goes_on left clear (by simpa using heard)⟩

/-- The budget is always a reason to stop. -/
theorem endsAt_maxTokens : feed.endsAt w spec sink spec.maxTokens.toNat ≠ none := by
  unfold endsAt
  split
  · simp
  · split
    · simp
    · split <;> simp

theorem clear_of_endsAt {reason : FinishReason} (ends : feed.endsAt w spec sink n = some reason)
    (other : reason ≠ .stopString) : ¬ HasStop spec.stop (feed.text w n) := by
  intro stops
  rw [endsAt, if_pos stops] at ends
  cases ends
  exact other rfl

theorem clear_of_none (goes : feed.endsAt w spec sink n = none) : ¬ HasStop spec.stop (feed.text w n) := by
  intro stops
  rw [endsAt, if_pos stops] at goes
  cases goes

theorem hasStop_of_endsAt (ends : feed.endsAt w spec sink n = some .stopString) :
    HasStop spec.stop (feed.text w n) := by
  unfold endsAt at ends
  split at ends
  · assumption
  · split at ends
    · cases ends
    · split at ends
      · cases ends
      · split at ends <;> cases ends

/-- Where a generation that a stop string ends is cut: no earlier than the safe bytes end. -/
theorem sent_stopString {k : Nat} (earlier : ∀ j < k, feed.endsAt w spec sink j = none)
    (ends : feed.endsAt w spec sink k = some .stopString) :
    ∃ m i, k = m + 1 ∧ StopAt spec.stop (feed.text w (m + 1)) i ∧ feed.safe w spec m ≤ i ∧
      cutAtStop spec.stop (feed.text w (m + 1)) = (feed.text w (m + 1)).take i ∧
      feed.sent w spec (m + 1) .stopString =
        feed.deltas w spec m ++ slice (feed.text w (m + 1)) (feed.safe w spec m) i := by
  have stops := hasStop_of_endsAt ends
  cases k with
  | zero => simp [HasStop, Feed.text] at stops
  | succ m =>
    have clear := clear_of_none (earlier m (Nat.lt_succ_self m))
    have least := earliestStop_least spec.stop (feed.text w (m + 1))
    cases found : earliestStop (feed.text w (m + 1)) spec.stop with
    | none => exact absurd stops (earliestStop_none.mp found)
    | some i =>
      rw [found] at least
      have held : feed.safe w spec m ≤ i := by
        apply StopAt.held clear
        rw [← text_succ]
        exact least.1
      have inside := earliestStop_le found
      have cut : cutAtStop spec.stop (feed.text w (m + 1)) = (feed.text w (m + 1)).take i := by
        rw [earliestStop_eq] at found
        rw [cutAtStop, found]
      refine ⟨m, i, rfl, least.1, held, cut, ?_⟩
      rw [sent, Nat.add_sub_cancel, cut, List.length_take_of_le inside]

theorem sent_other {reason : FinishReason} (other : reason ≠ .stopString) : feed.sent w spec n reason =
    feed.deltas w spec n ++ slice (feed.text w n) (feed.safe w spec n) (feed.text w n).length := by
  unfold sent
  split
  · exact absurd rfl other
  · rfl

/-- All that is sent is the text up to the first stop string. -/
theorem sent_flatten {k : Nat} {reason : FinishReason} (earlier : ∀ j < k, feed.endsAt w spec sink j = none)
    (ends : feed.endsAt w spec sink k = some reason) :
    (feed.sent w spec k reason).flatten = cutAtStop spec.stop (feed.text w k) := by
  by_cases stopped : reason = .stopString
  · subst stopped
    obtain ⟨m, i, rfl, _, held, cut, all⟩ := sent_stopString earlier ends
    have before : (feed.deltas w spec m).flatten = (feed.text w (m + 1)).take (feed.safe w spec m) := by
      rw [deltas_flatten, text_succ, List.take_append_of_le_length (safe_le m)]
    rw [all, List.flatten_append, before, slice_flatten, cut, Nat.max_eq_right held]
  · rw [sent_other stopped, List.flatten_append, deltas_flatten, slice_flatten,
      Nat.max_eq_right (safe_le k), List.take_length, cutAtStop_of_clear (clear_of_endsAt ends stopped)]

theorem Holds.resume (holds : Holds w spec sink feed start n s port) (world : σ) :
    Holds w spec sink feed start n s { port with world := world } := { holds with }

/-- The generation ended where the reference ends, and as it does. -/
def Ended (w : World σ) (spec : RequestSpec) (sink : SinkRef) (feed : Feed σ) (start : Port σ)
    (s : SequenceState) (port : Port σ) : Prop :=
  ∃ k reason, (∀ j < k, feed.endsAt w spec sink j = none) ∧ feed.endsAt w spec sink k = some reason ∧
    Done w spec sink feed start k reason s port

theorem none_before_succ (earlier : ∀ j < n, feed.endsAt w spec sink j = none)
    (goes : feed.endsAt w spec sink n = none) : ∀ j < n + 1, feed.endsAt w spec sink j = none := by
  intro j before
  by_cases last : j = n
  · rw [last, goes]
  · exact earlier j (by omega)

theorem Holds.of_fed (first : Holds w spec sink feed start 0 s port) {t : SequenceState} {p : Port σ}
    (fed : Fed w feed s port n t p) :
    Holds w spec sink feed start n t p ∧ ∀ j < n, feed.endsAt w spec sink j = none := by
  induction fed with
  | start => exact ⟨first, fun j before => absurd before (Nat.not_lt_zero j)⟩
  | next earlier accepted ih =>
    obtain ⟨_, goes, holds⟩ := ((ih.1.resume _).accept rfl accepted).resolve_right (by simp)
    exact ⟨holds, none_before_succ ih.2 goes⟩

theorem Holds.stops (holds : Holds w spec sink feed start n s port)
    (earlier : ∀ j < n, feed.endsAt w spec sink j = none) {s' : SequenceState} {port' : Port σ}
    (accepted : s.accept w (feed.step n) { port with world := feed.world n } = (false, s', port')) :
    Ended w spec sink feed start (s'.finish w port').1 (s'.finish w port').2 := by
  obtain ⟨_, k, reason, reached, ends, done⟩ := ((holds.resume _).accept rfl accepted).resolve_left (by simp)
  refine ⟨k, reason, ?_, ends, done⟩
  rcases reached with rfl | ⟨rfl, goes⟩
  · exact earlier
  · exact none_before_succ earlier goes

/-- Driving a sequence to its end, from any number of tokens: each turn spends one token of the
    budget. -/
theorem Holds.drive (holds : Holds w spec sink feed start n s port)
    (earlier : ∀ j < n, feed.endsAt w spec sink j = none) {fuel : Nat}
    (enough : spec.maxTokens.toNat ≤ n + fuel) :
    ∃ s' port', MicroVllm.drive w feed fuel n s port = some (s', port') ∧
      Ended w spec sink feed start s' port' := by
  induction fuel generalizing n s port with
  | zero =>
    rw [MicroVllm.drive]
    split
    · rename_i stopped
      exact ⟨_, _, rfl, holds.stops earlier stopped⟩
    · rename_i goesOn
      obtain ⟨_, _, later⟩ := ((holds.resume _).accept rfl goesOn).resolve_right (by simp)
      have within := later.within
      omega
  | succ fuel ih =>
    rw [MicroVllm.drive]
    split
    · rename_i stopped
      exact ⟨_, _, rfl, holds.stops earlier stopped⟩
    · rename_i goesOn
      obtain ⟨_, goes, later⟩ := ((holds.resume _).accept rfl goesOn).resolve_right (by simp)
      exact ih later (none_before_succ earlier goes) (by omega)

end Feed

/-- Driving a sequence with `accept` until it returns false and then `finish` gives the
    whole-stream reference: it ends at the first count with a reason to stop and for that reason,
    the sink has been sent the text up to the first stop string and no byte beyond it at any
    moment, and as long as the sequence goes on fewer bytes are held back than the longest stop
    string has. -/
theorem whole_stream (w : World σ) (spec : RequestSpec) (sink : SinkRef) (feed : Feed σ) (seq : Nat)
    (prompt : List Token) (port : Port σ) :
    ∃ k reason s port', (∀ j < k, feed.endsAt w spec sink j = none) ∧
      feed.endsAt w spec sink k = some reason ∧ k ≤ spec.maxTokens.toNat ∧
      drive w feed spec.maxTokens.toNat 0 (.make seq spec sink prompt) port = some (s, port') ∧
      s.usage.completionTokens = k ∧ s.reason = reason ∧
      (∃ deltas : List Text, deltas.flatten = cutAtStop spec.stop (feed.text w k) ∧
        port'.log = port.log ++ deltas.map (.onText sink) ++ [.onFinish sink reason s.usage]) ∧
      (∀ past, past <+: port'.log →
        streamed sink past <+: streamed sink port.log ++ cutAtStop spec.stop (feed.text w k)) ∧
      ∀ n t p, Fed w feed (.make seq spec sink prompt) port n t p →
        ∃ (sent : List Text) (held : Text), p.log = port.log ++ sent.map (.onText sink) ∧
          feed.text w n = sent.flatten ++ held ∧ held.length ≤ maxStopLen spec.stop - 1 := by
  have first : Feed.Holds w spec sink feed port 0 (.make seq spec sink prompt) port := .first seq spec sink prompt port
  obtain ⟨s, port', driven, k, reason, earlier, ends, done⟩ :=
    first.drive (fun j before => absurd before (Nat.not_lt_zero j)) (Nat.le_add_left _ 0)
  have all := Feed.sent_flatten earlier ends
  refine ⟨k, reason, s, port', earlier, ends, ?_, driven, done.count, done.names, ⟨_, all, done.log⟩, ?_, ?_⟩
  · by_contra isOver
    exact Feed.endsAt_maxTokens (earlier _ (by omega))
  · intro past moment
    have whole : streamed sink port'.log =
        streamed sink port.log ++ cutAtStop spec.stop (feed.text w k) := by
      rw [done.log, streamed_append, streamed_append, streamed_onText, all]
      exact List.append_nil _
    obtain ⟨rest, split⟩ := moment
    exact ⟨streamed sink rest, by rw [← streamed_append, split, whole]⟩
  · intro n t p fed
    have holds := (first.of_fed fed).1
    refine ⟨_, (feed.text w n).drop (feed.safe w spec n), holds.log, ?_, ?_⟩
    · rw [Feed.deltas_flatten, List.take_append_drop]
    · rw [List.length_drop]
      unfold Feed.safe
      omega

end Driving

end MicroVllm
