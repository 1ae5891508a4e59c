import MicroVllm.Engine

/-! # The per-request generation state machine

`SequenceState` is driven the same way by the single-request generator and by both
schedulers: submit prompt chunks, feed sampled tokens to `accept`, and `finish` once.
A method that talks to the sink takes the `Port` and gives it back.
-/

namespace MicroVllm

/-- `std::string::find`: the first index at which `pattern` occurs. -/
def findText (pattern : Text) : Text → Option Nat
  | [] => if pattern = [] then some 0 else none
  | byte :: rest =>
    if pattern.isPrefixOf (byte :: rest) then some 0 else (findText pattern rest).map (· + 1)

/-- `std::min` over positions, with `none` for `npos`. -/
def minPos : Option Nat → Option Nat → Option Nat
  | none, found => found
  | best, none => best
  | some best, some found => some (min best found)

/-- Earliest index at which a non-empty stop string occurs in `text`. -/
def earliestStop (text : Text) (stops : List Text) : Option Nat :=
  stops.foldl (fun best stop => if stop = [] then best else minPos best (findText stop text)) none

def maxStopLen (stops : List Text) : Nat := stops.foldl (fun m stop => max m stop.length) 0

structure SequenceState where
  seq : Nat
  spec : RequestSpec
  sink : SinkRef
  prompt : List Token
  holdback : Nat
  prefilled : Nat := 0
  pending : Token := 0
  text : Text := []
  emitted : Nat := 0
  usage : Usage := {}
  reason : FinishReason := .unset
  finished : Bool := false
  notified : Bool := false
  error : String := ""
deriving DecidableEq, Repr

namespace SequenceState

variable {σ : Type}

def make (seq : Nat) (spec : RequestSpec) (sink : SinkRef) (prompt : List Token) :
    SequenceState where
  seq := seq
  spec := spec
  sink := sink
  prompt := prompt
  holdback := maxStopLen spec.stop
  usage := { promptTokens := toUint32 prompt.length }

/-- Where the pending token is fed back in: a 32-bit sum of 32-bit casts. -/
def feedPos (s : SequenceState) : Int :=
  toPos (toPos s.prompt.length + toPos s.usage.completionTokens - 1)

/-- The last prompt token is never adopted: it has to go through the engine to sample
    the first token. -/
def adoptCachedPrefix (s : SequenceState) (nTokens : Nat) : SequenceState :=
  let take := min nTokens (if s.prompt = [] then 0 else s.prompt.length - 1)
  { s with prefilled := take, usage := { s.usage with cachedPromptTokens := toUint32 take } }

def prefillRemaining (s : SequenceState) : Nat := s.prompt.length - s.prefilled

def prefilling (s : SequenceState) : Bool := s.prefillRemaining > 0

def takePrefillChunk (s : SequenceState) (budget : Nat) : BatchItem × SequenceState :=
  let take := min budget s.prefillRemaining
  let s' := { s with prefilled := s.prefilled + take }
  ({ seq := s.seq
     tokens := (s.prompt.drop s.prefilled).take take
     pos0 := toPos s.prefilled
     -- earlier chunks only fill the cache
     sample := s'.prefillRemaining = 0 }, s')

def prefillItem (s : SequenceState) : BatchItem × SequenceState :=
  s.takePrefillChunk s.prompt.length

def decodeItem (s : SequenceState) : BatchItem :=
  { seq := s.seq, tokens := [s.pending], pos0 := s.feedPos, sample := true }

/-- The bytes that cannot turn out to be inside a stop string. -/
def safePrefix (s : SequenceState) : Nat :=
  if s.holdback = 0 then s.text.length
  else if s.text.length ≥ s.holdback - 1 then s.text.length - (s.holdback - 1) else 0

def flushUpto (w : World σ) (s : SequenceState) (upto : Nat) (port : Port σ) :
    SequenceState × Port σ :=
  if upto > s.emitted then
    ({ s with emitted := upto },
      port.onText w s.sink ((s.text.drop s.emitted).take (upto - s.emitted)))
  else (s, port)

def stopWith (s : SequenceState) (reason : FinishReason) : SequenceState :=
  { s with reason := reason, finished := true }

/-- The text and the count after one more token. -/
def append (s : SequenceState) (piece : Text) : SequenceState :=
  { s with
    text := s.text ++ piece
    usage := { s.usage with completionTokens := s.usage.completionTokens + 1 } }

/-- Consume a sampled token; the flag says whether the sequence needs another step.
    The count cannot wrap: it stays below the request's 32-bit `maxTokens`. -/
def accept (w : World σ) (s : SequenceState) (step : GenStep) (port : Port σ) :
    Bool × SequenceState × Port σ :=
  if s.finished then (false, s, port)
  else if step.isEog then (false, s.stopWith .eos, port)
  -- checked before the token counts: the one that finds the budget spent is dropped
  else if s.usage.completionTokens ≥ s.spec.maxTokens.toNat then
    (false, s.stopWith .maxTokens, port)
  else
    let s := s.append (w.piece step.token)
    match earliestStop s.text s.spec.stop with
    -- up to the stop, never into or past it
    | some stopAt =>
      let flushed := s.flushUpto w stopAt port
      (false, flushed.1.stopWith .stopString, flushed.2)
    | none =>
      let flushed := s.flushUpto w s.safePrefix port
      -- a cancelled request gets the tail as well: no stop can follow
      if w.cancelled flushed.1.sink flushed.2.world then
        let rest := flushed.1.flushUpto w flushed.1.text.length flushed.2
        (false, rest.1.stopWith .cancelled, rest.2)
      else (true, { flushed.1 with pending := step.token }, flushed.2)

def fail (s : SequenceState) (message : String) (reason : FinishReason := .error) :
    SequenceState :=
  { s with error := message }.stopWith reason

/-- Notify the sink, once.  A clean finish flushes the held-back tail, a stop-string
    finish must not. -/
def finish (w : World σ) (s : SequenceState) (port : Port σ) : SequenceState × Port σ :=
  if s.notified then (s, port)
  else
    let s := { s with notified := true, finished := true }
    if s.reason = .error ∨ s.reason = .contextOverflow then (s, port.onError w s.sink s.error)
    else
      -- `accept` has flushed what a cancelled request gets
      let flushed :=
        if s.reason = .eos ∨ s.reason = .maxTokens then s.flushUpto w s.text.length port
        else (s, port)
      (flushed.1, flushed.2.onFinish w flushed.1.sink flushed.1.reason flushed.1.usage)

def emittedText (s : SequenceState) : Text := s.text.take s.emitted

/-- The three casts of `feed_pos` come to one. -/
theorem feedPos_eq_toPos (s : SequenceState) :
    s.feedPos = toPos (s.prompt.length + s.usage.completionTokens - 1) := by
  simp only [feedPos, toPos]
  rw [Int.add_sub_assoc, Int.bmod_add_bmod, Int.sub_eq_add_neg, Int.add_left_comm, Int.bmod_add_bmod]
  congr 1
  omega

/-! ## What a state keeps -/

/-- Two states of the sequence one request was given. -/
structure SameOrigin (s s' : SequenceState) : Prop where
  seq : s'.seq = s.seq
  spec : s'.spec = s.spec
  sink : s'.sink = s.sink
  prompt : s'.prompt = s.prompt
  promptTokens : s'.usage.promptTokens = s.usage.promptTokens

/-- Two states of it between which no prompt token was submitted. -/
structure SameRequest (s s' : SequenceState) : Prop extends SameOrigin s s' where
  prefilled : s'.prefilled = s.prefilled

theorem SameOrigin.refl (s : SequenceState) : SameOrigin s s := ⟨rfl, rfl, rfl, rfl, rfl⟩

theorem SameOrigin.trans {s t u : SequenceState} (first : SameOrigin s t) (second : SameOrigin t u) :
    SameOrigin s u :=
  ⟨second.seq.trans first.seq, second.spec.trans first.spec, second.sink.trans first.sink,
    second.prompt.trans first.prompt, second.promptTokens.trans first.promptTokens⟩

theorem SameRequest.refl (s : SequenceState) : SameRequest s s := ⟨.refl s, rfl⟩

theorem SameRequest.trans {s t u : SequenceState} (first : SameRequest s t)
    (second : SameRequest t u) : SameRequest s u :=
  ⟨first.toSameOrigin.trans second.toSameOrigin, second.prefilled.trans first.prefilled⟩

theorem SameRequest.prefilling_eq {s t : SequenceState} (same : SameRequest s t) :
    t.prefilling = s.prefilling := by
  have remaining : t.prefillRemaining = s.prefillRemaining := by
    rw [prefillRemaining, prefillRemaining, same.prompt, same.prefilled]
  rw [Bool.eq_iff_iff, prefilling, prefilling, remaining]

variable {w : World σ}

theorem takePrefillChunk_same (s : SequenceState) (budget : Nat) :
    SameOrigin s (s.takePrefillChunk budget).2 := ⟨rfl, rfl, rfl, rfl, rfl⟩

theorem adoptCachedPrefix_same (s : SequenceState) (nTokens : Nat) :
    SameOrigin s (s.adoptCachedPrefix nTokens) := ⟨rfl, rfl, rfl, rfl, rfl⟩

theorem flushUpto_same (s : SequenceState) (upto : Nat) (port : Port σ) :
    SameRequest s (s.flushUpto w upto port).1 := by
  unfold flushUpto
  split
  · exact ⟨⟨rfl, rfl, rfl, rfl, rfl⟩, rfl⟩
  · exact .refl s

theorem stopWith_same (s : SequenceState) (reason : FinishReason) :
    SameRequest s (s.stopWith reason) := ⟨⟨rfl, rfl, rfl, rfl, rfl⟩, rfl⟩

theorem append_same (s : SequenceState) (piece : Text) : SameRequest s (s.append piece) :=
  ⟨⟨rfl, rfl, rfl, rfl, rfl⟩, rfl⟩

theorem fail_same (s : SequenceState) (message : String) (reason : FinishReason) :
    SameRequest s (s.fail message reason) := ⟨⟨rfl, rfl, rfl, rfl, rfl⟩, rfl⟩

theorem accept_same {s s' : SequenceState} {step : GenStep} {port port' : Port σ} {goesOn : Bool}
    (accepted : s.accept w step port = (goesOn, s', port')) : SameRequest s s' := by
  have same : SameRequest s (s.accept w step port).2.1 := by
    unfold accept
    split
    · exact .refl s
    · split
      · exact stopWith_same s _
      · split
        · exact stopWith_same s _
        · have appended := append_same s (w.piece step.token)
          simp only
          split
          · exact (appended.trans (flushUpto_same _ _ port)).trans (stopWith_same _ _)
          · have flushed := appended.trans
              (flushUpto_same (w := w) _ (s.append (w.piece step.token)).safePrefix port)
            split
            · exact (flushed.trans (flushUpto_same _ _ _)).trans (stopWith_same _ _)
            · exact flushed.trans ⟨⟨rfl, rfl, rfl, rfl, rfl⟩, rfl⟩
  rwa [accepted] at same

theorem finish_same (s : SequenceState) (port : Port σ) : SameRequest s (s.finish w port).1 := by
  unfold finish
  split
  · exact .refl s
  · have noted : SameRequest s { s with notified := true, finished := true } :=
      ⟨⟨rfl, rfl, rfl, rfl, rfl⟩, rfl⟩
    simp only
    split
    · exact noted
    · split
      · exact noted.trans (flushUpto_same _ _ _)
      · exact noted

/-! ## What `accept` can do -/

/-- Some more of the text has gone out. -/
def emitUpto (s : SequenceState) (upto : Nat) : SequenceState := { s with emitted := max s.emitted upto }

theorem flushUpto_state (s : SequenceState) (upto : Nat) (port : Port σ) :
    (s.flushUpto w upto port).1 = s.emitUpto upto := by
  unfold flushUpto emitUpto
  split
  · rw [Nat.max_eq_right (by omega)]
  · rw [Nat.max_eq_left (by omega)]

/-- The outcomes of accepting a sampled token, sink aside: whether the sequence goes on and
    the state it is left in. -/
inductive Accepts (w : World σ) (s : SequenceState) (step : GenStep) : Bool → SequenceState → Prop where
  | done (finished : s.finished = true) : Accepts w s step false s
  | eos (unfinished : s.finished = false) (eog : step.isEog = true) :
      Accepts w s step false (s.stopWith .eos)
  | budget (unfinished : s.finished = false) (more : step.isEog = false)
      (spent : s.spec.maxTokens.toNat ≤ s.usage.completionTokens) :
      Accepts w s step false (s.stopWith .maxTokens)
  | stop {stopAt} (unfinished : s.finished = false) (more : step.isEog = false)
      (left : s.usage.completionTokens < s.spec.maxTokens.toNat)
      (found : earliestStop (s.text ++ w.piece step.token) s.spec.stop = some stopAt) :
      Accepts w s step false (((s.append (w.piece step.token)).emitUpto stopAt).stopWith .stopString)
  | cancelled (unfinished : s.finished = false) (more : step.isEog = false)
      (left : s.usage.completionTokens < s.spec.maxTokens.toNat)
      (clear : earliestStop (s.text ++ w.piece step.token) s.spec.stop = none)
      (heard : ∃ sink world, w.cancelled sink world = true) :
      Accepts w s step false ((((s.append (w.piece step.token)).emitUpto
        (s.append (w.piece step.token)).safePrefix).emitUpto
          (s.append (w.piece step.token)).text.length).stopWith .cancelled)
  | goesOn (unfinished : s.finished = false) (more : step.isEog = false)
      (left : s.usage.completionTokens < s.spec.maxTokens.toNat)
      (clear : earliestStop (s.text ++ w.piece step.token) s.spec.stop = none) :
      Accepts w s step true { (s.append (w.piece step.token)).emitUpto
        (s.append (w.piece step.token)).safePrefix with pending := step.token }

theorem accept_accepts {s s' : SequenceState} {step : GenStep} {port port' : Port σ} {goesOn : Bool}
    (accepted : s.accept w step port = (goesOn, s', port')) : Accepts w s step goesOn s' := by
  have all : Accepts w s step (s.accept w step port).1 (s.accept w step port).2.1 := by
    unfold accept
    split
    · rename_i finished
      exact .done finished
    · rename_i unfinished
      have unfinished : s.finished = false := by simpa using unfinished
      split
      · rename_i eog
        exact .eos unfinished eog
      · rename_i more
        have more : step.isEog = false := by simpa using more
        split
        · rename_i spent
          exact .budget unfinished more spent
        · rename_i left
          have left : s.usage.completionTokens < s.spec.maxTokens.toNat := by omega
          simp only [flushUpto_state]
          cases found : earliestStop (s.append (w.piece step.token)).text
              (s.append (w.piece step.token)).spec.stop with
          | some stopAt => exact .stop unfinished more left found
          | none =>
            simp only
            split
            · rename_i heard
              exact .cancelled unfinished more left found ⟨_, _, heard⟩
            · exact .goesOn unfinished more left found
  rwa [accepted] at all

/-- A sequence is cancelled by its own sink. -/
theorem accept_uncancelled {s s' : SequenceState} {step : GenStep} {port port' : Port σ} {goesOn : Bool}
    (accepted : s.accept w step port = (goesOn, s', port'))
    (silent : ∀ world, w.cancelled s.sink world = false) (before : s.reason ≠ .cancelled) :
    s'.reason ≠ .cancelled := by
  unfold accept at accepted
  split at accepted
  · cases accepted
    exact before
  · split at accepted
    · cases accepted
      simp [stopWith]
    · split at accepted
      · cases accepted
        simp [stopWith]
      · simp only at accepted
        split at accepted
        · cases accepted
          simp [stopWith]
        · -- the sink is asked here, and it is the one of the sequence
          have sink := (flushUpto_same (w := w) (s.append (w.piece step.token))
            (s.append (w.piece step.token)).safePrefix port).sink
          rw [if_neg (by rw [sink]; simp [append, silent])] at accepted
          cases accepted
          rw [flushUpto_state]
          exact before

theorem Accepts.same {s s' : SequenceState} {step : GenStep} {goesOn : Bool}
    (accepts : Accepts w s step goesOn s') : SameRequest s s' := by
  cases accepts <;> exact ⟨⟨rfl, rfl, rfl, rfl, rfl⟩, rfl⟩

theorem Accepts.completion_le {s s' : SequenceState} {step : GenStep} {goesOn : Bool}
    (accepts : Accepts w s step goesOn s') : s.usage.completionTokens ≤ s'.usage.completionTokens := by
  cases accepts with
  | done | eos | budget => exact Nat.le_refl _
  | stop | cancelled | goesOn => exact Nat.le_succ _

theorem Accepts.finished_of_stops {s s' : SequenceState} {step : GenStep}
    (accepts : Accepts w s step false s') : s'.finished = true := by
  cases accepts with
  | done finished => exact finished
  | _ => rfl

theorem finish_finished {s : SequenceState} (finished : s.finished = true) (port : Port σ) :
    (s.finish w port).1.finished = true := by
  unfold finish
  split
  · exact finished
  · simp only
    split
    · rfl
    · split
      · rw [flushUpto_state]
        rfl
      · rfl

theorem Accepts.unfinished_of_goesOn {s s' : SequenceState} {step : GenStep}
    (accepts : Accepts w s step true s') : s.finished = false ∧ s'.finished = false := by
  cases accepts with
  | goesOn unfinished => exact ⟨unfinished, unfinished⟩

end SequenceState

end MicroVllm
