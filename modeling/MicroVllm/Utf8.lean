import MicroVllm.Lib.Codes
import MicroVllm.Streaming
import MicroVllm.Reference

/-! # Deltas and characters

The deltas of a stream are cut by byte counts.  Whether each of them is valid UTF-8 comes down
to where the held-back bytes begin: all are valid exactly when that is the beginning of a
character after every token that goes by without completing a stop string.
-/

namespace MicroVllm

open Codes Occurrences

/-- UTF-8: the first byte of a character is no continuation byte, the others are. -/
def utf8 : Code Char UInt8 where
  word := String.utf8EncodeChar
  head := UInt8.IsUTF8FirstByte
  word_ne_nil c := by
    apply List.ne_nil_of_length_pos
    rw [String.length_utf8EncodeChar]
    exact c.utf8Size_pos
  head_iff _ _ _ := UInt8.isUTF8FirstByte_getElem_utf8EncodeChar
  word_inj c d begins := by
    -- decoding the longer one gives the character of the shorter one
    obtain ⟨rest, longer⟩ := begins
    have short : ByteArray.utf8DecodeChar? (String.utf8EncodeChar d).toByteArray 0 = some c := by
      rw [← longer, List.toByteArray_append]
      exact ByteArray.utf8DecodeChar?_utf8EncodeChar_append
    have long : ByteArray.utf8DecodeChar? (String.utf8EncodeChar d).toByteArray 0 = some d := by
      have decoded := ByteArray.utf8DecodeChar?_utf8EncodeChar_append (b := ByteArray.empty) (c := d)
      rwa [ByteArray.append_empty] at decoded
    rw [short] at long
    cases long
    rfl

def ValidUtf8 (text : Text) : Prop := utf8.Encoded text

theorem slice_valid {text : Text} {a b : Nat} (valid : ValidUtf8 text) (starts : utf8.Border text a)
    (ends : utf8.Border text b) {delta : Text} (member : delta ∈ slice text a b) : ValidUtf8 delta := by
  unfold slice at member
  split at member
  · rename_i less
    rw [List.mem_singleton] at member
    subst member
    have border : utf8.Border (text.drop a) (b - a) := by
      rw [Code.border_drop, show a + (b - a) = b by omega]
      exact ends
    exact ((valid.cut starts).2.cut border).1
  · cases member

theorem StopAt.border {stops : List Text} {text : Text} {i : Nat} (valid : ∀ stop ∈ stops, ValidUtf8 stop)
    (stopped : StopAt stops text i) : utf8.Border text i := by
  obtain ⟨stop, member, some, rest, here⟩ := stopped
  have first : utf8.Border (stop ++ rest) 0 :=
    (Code.border_append_left (List.length_pos_iff.mpr some)).mpr (valid stop member).border_zero
  rwa [here, Code.border_drop] at first

section Deltas

variable {σ : Type} {w : World σ} {spec : RequestSpec} {sink : SinkRef} {feed : Feed σ}

/-- The port once the sequence has been finished: at its own end, or after a failure that cut
    it off. -/
inductive Finishes (w : World σ) (feed : Feed σ) (s : SequenceState) (port : Port σ) : Port σ → Prop where
  | own {s' port'} (driven : drive w feed s.spec.maxTokens.toNat 0 s port = some (s', port')) :
      Finishes w feed s port port'
  | failed {n t p} (fed : Fed w feed s port n t p) (message : String) (reason : FinishReason)
      (bad : reason = .error ∨ reason = .contextOverflow) :
      Finishes w feed s port ((t.fail message reason).finish w p).2

namespace Feed

/-- After every count of tokens that neither ends the generation before nor completes a stop
    string, the bytes held back begin with a character. -/
def HoldsCharacters (w : World σ) (spec : RequestSpec) (sink : SinkRef) (feed : Feed σ) : Prop :=
  ∀ n, (∀ j < n, feed.endsAt w spec sink j = none) → ¬ HasStop spec.stop (feed.text w n) →
    utf8.Border (feed.text w n) (feed.safe w spec n)

theorem text_valid (pieces : ∀ token, ValidUtf8 (w.piece token)) (n : Nat) : ValidUtf8 (feed.text w n) :=
  Code.Encoded.flatMap fun _ _ => pieces _

/-- A border stays one when the next piece comes. -/
theorem border_succ (pieces : ∀ token, ValidUtf8 (w.piece token)) {n i : Nat}
    (within : i ≤ (feed.text w n).length) (border : utf8.Border (feed.text w n) i) :
    utf8.Border (feed.text w (n + 1)) i := by
  rw [text_succ]
  by_cases inside : i < (feed.text w n).length
  · exact (Code.border_append_left inside).mpr border
  · rw [Code.border_append_right (Nat.le_of_not_lt inside), Nat.sub_eq_zero_of_le within]
    exact (pieces _).border_zero

theorem border_length (text : Text) : utf8.Border text text.length := by
  intro byte here
  rw [List.getElem?_eq_none (Nat.le_refl _)] at here
  cases here

theorem HoldsCharacters.deltas_valid (holds : feed.HoldsCharacters w spec sink)
    (pieces : ∀ token, ValidUtf8 (w.piece token)) {n : Nat}
    (earlier : ∀ j < n, feed.endsAt w spec sink j = none) (clear : ¬ HasStop spec.stop (feed.text w n))
    {delta : Text} (member : delta ∈ feed.deltas w spec n) : ValidUtf8 delta := by
  obtain ⟨i, before, inside⟩ := List.mem_flatMap.mp member
  rw [List.mem_range] at before
  have none : ∀ j < i, feed.endsAt w spec sink j = none := fun j less => earlier j (by omega)
  have starts := holds i none (clear_of_none (earlier i before))
  have ends : utf8.Border (feed.text w (i + 1)) (feed.safe w spec (i + 1)) := by
    apply holds (i + 1) (none_before_succ none (earlier i before))
    by_cases last : i + 1 = n
    · rw [last]
      exact clear
    · exact clear_of_none (earlier (i + 1) (by omega))
  exact slice_valid (text_valid pieces (i + 1)) (border_succ pieces (safe_le i) starts) ends inside

/-- Every delta of a whole generation is valid when the held-back bytes begin with a character:
    the last cut is the end of the text or the beginning of a stop string. -/
theorem HoldsCharacters.sent_valid (holds : feed.HoldsCharacters w spec sink)
    (pieces : ∀ token, ValidUtf8 (w.piece token)) (stops : ∀ stop ∈ spec.stop, ValidUtf8 stop)
    {k : Nat} {reason : FinishReason} (earlier : ∀ j < k, feed.endsAt w spec sink j = none)
    (ends : feed.endsAt w spec sink k = some reason) {delta : Text}
    (member : delta ∈ feed.sent w spec k reason) : ValidUtf8 delta := by
  by_cases stopped : reason = .stopString
  · subst stopped
    obtain ⟨m, i, rfl, stop, _, _, all⟩ := sent_stopString earlier ends
    have none : ∀ j < m, feed.endsAt w spec sink j = none := fun j less => earlier j (by omega)
    have clear := clear_of_none (earlier m (Nat.lt_succ_self m))
    rw [all, List.mem_append] at member
    cases member with
    | inl before => exact holds.deltas_valid pieces none clear before
    | inr last =>
      exact slice_valid (text_valid pieces _) (border_succ pieces (safe_le m) (holds m none clear))
        (stop.border stops) last
  · have clear := clear_of_endsAt ends stopped
    rw [sent_other stopped, List.mem_append] at member
    cases member with
    | inl before => exact holds.deltas_valid pieces earlier clear before
    | inr last => exact slice_valid (text_valid pieces k) (holds k earlier clear) (border_length _) last

/-- What was sent while the generation went on is sent by all of it. -/
theorem deltas_subset_sent {n k : Nat} {reason : FinishReason}
    (before : ∀ j < n, feed.endsAt w spec sink j = none) (clear : ¬ HasStop spec.stop (feed.text w n))
    (earlier : ∀ j < k, feed.endsAt w spec sink j = none) (ends : feed.endsAt w spec sink k = some reason) :
    feed.deltas w spec n ⊆ feed.sent w spec k reason := by
  have reached : n ≤ k := by
    by_contra isOver
    rw [before k (by omega)] at ends
    cases ends
  have grows : ∀ m, n ≤ m → feed.deltas w spec n ⊆ feed.deltas w spec m := by
    intro m less delta member
    obtain ⟨i, inside, made⟩ := List.mem_flatMap.mp member
    rw [List.mem_range] at inside
    exact List.mem_flatMap.mpr ⟨i, List.mem_range.mpr (by omega), made⟩
  intro delta member
  by_cases stopped : reason = .stopString
  · subst stopped
    obtain ⟨m, i, rfl, _, _, _, all⟩ := sent_stopString earlier ends
    -- the last token completes a stop string, so these are fewer
    have fewer : n ≠ m + 1 := by
      intro same
      rw [same] at clear
      exact clear (hasStop_of_endsAt ends)
    rw [all]
    exact List.mem_append_left _ (grows m (by omega) member)
  · rw [sent_other stopped]
    exact List.mem_append_left _ (grows k reached member)

end Feed

/-- A failure is told without any text. -/
theorem SequenceState.finish_failed_log {s : SequenceState} {message : String} {reason : FinishReason}
    (bad : reason = .error ∨ reason = .contextOverflow) {port : Port σ} {sink : SinkRef} {delta : Text}
    (member : .onText sink delta ∈ ((s.fail message reason).finish w port).2.log) :
    .onText sink delta ∈ port.log := by
  unfold finish at member
  split at member
  · exact member
  · simp only at member
    rw [if_pos (show (s.fail message reason).reason = .error ∨ (s.fail message reason).reason = .contextOverflow
      from bad)] at member
    simpa [Port.onError] using member

/-- With valid pieces and valid stop strings, every delta passed to `on_text` is valid UTF-8,
    whichever way the generation finishes, exactly when the bytes that are held back always begin
    with a character. -/
theorem valid_deltas (w : World σ) (spec : RequestSpec) (sink : SinkRef) (feed : Feed σ) (seq : Nat)
    (prompt : List Token) (world : σ) (pieces : ∀ token, ValidUtf8 (w.piece token))
    (stops : ∀ stop ∈ spec.stop, ValidUtf8 stop) :
    (∀ port', Finishes w feed (.make seq spec sink prompt) { world := world } port' →
      ∀ delta, .onText sink delta ∈ port'.log → ValidUtf8 delta) ↔
      feed.HoldsCharacters w spec sink := by
  have first : Feed.Holds w spec sink feed { world := world } 0 (.make seq spec sink prompt)
      { world := world } := .first seq spec sink prompt _
  obtain ⟨s, port', driven, k, reason, earlier, ends, done⟩ :=
    first.drive (fun j before => absurd before (Nat.not_lt_zero j)) (Nat.le_add_left _ 0)
  constructor
  · intro valid n before clear
    have each : ∀ delta ∈ feed.deltas w spec n, ValidUtf8 delta := by
      intro delta member
      apply valid port' (.own driven)
      rw [done.log]
      simpa using Feed.deltas_subset_sent before clear earlier ends member
    apply (Feed.text_valid pieces n).border_of_take
    rw [← Feed.deltas_flatten, ← List.flatMap_id]
    exact Code.Encoded.flatMap each
  · intro holds port' finishes delta member
    cases finishes with
    | own driven' =>
      rw [show drive w feed spec.maxTokens.toNat 0 (.make seq spec sink prompt) { world := world } = _
        from driven'] at driven
      cases driven
      rw [done.log] at member
      exact holds.sent_valid pieces stops earlier ends (by simpa using member)
    | failed fed message reason bad =>
      have inside := SequenceState.finish_failed_log bad member
      obtain ⟨goes, before⟩ := first.of_fed fed
      rw [goes.log] at inside
      exact holds.deltas_valid pieces before goes.clear (by simpa using inside)

end Deltas

/-- The same token again and again. -/
def Feed.steady {σ : Type} (world : σ) : Feed σ where
  step _ := { seq := 0, token := 97, isEog := false }
  world _ := world

/-- One character per token, of one byte: it cannot be cut. -/
theorem valid_deltas_letter :
    (∀ token, ValidUtf8 (Script.letter.world.piece token)) ∧ (∀ stop ∈ [[97, 98]], ValidUtf8 stop) ∧
    ∀ port', Finishes Script.letter.world (.steady fun _ => none)
        (.make 0 { prompt := [104], stop := [[97, 98]], maxTokens := 3 } (.supplied 0) [104])
        { world := fun _ => none } port' →
      ∀ delta, .onText (.supplied 0) delta ∈ port'.log → ValidUtf8 delta := by
  have pieces : ∀ token, ValidUtf8 (Script.letter.world.piece token) := fun _ => ⟨['a'], rfl⟩
  have stops : ∀ stop ∈ [[97, 98]], ValidUtf8 stop := by
    intro stop member
    rw [List.mem_singleton.mp member]
    exact ⟨['a', 'b'], rfl⟩
  apply And.intro pieces
  apply And.intro stops
  apply (valid_deltas Script.letter.world _ _ _ _ _ _ pieces stops).mpr
  intro n _ _ byte here
  have member := List.mem_of_getElem? here
  simp only [Feed.text, List.mem_flatMap] at member
  obtain ⟨_, _, letter⟩ := member
  rw [List.mem_singleton.mp letter]
  show UInt8.IsUTF8FirstByte 97
  decide

/-- Every token spells the two bytes of one character. -/
def Script.accented : Script := { Script.letter with piece := fun _ => [0xC3, 0xA9] }

/-- A stop string of two bytes holds one byte back: the first delta is half a character. -/
theorem half_character_accented :
    (∀ token, ValidUtf8 (Script.accented.world.piece token)) ∧ (∀ stop ∈ [[97, 98]], ValidUtf8 stop) ∧
    ∃ port', Finishes Script.accented.world (.steady fun _ => none)
        (.make 0 { prompt := [104], stop := [[97, 98]], maxTokens := 1 } (.supplied 0) [104])
        { world := fun _ => none } port' ∧
      .onText (.supplied 0) [0xC3] ∈ port'.log ∧ ¬ ValidUtf8 [0xC3] := by
  refine ⟨fun _ => ⟨['é'], rfl⟩, ?_, _, .own rfl, by decide, ?_⟩
  · intro stop member
    rw [List.mem_singleton.mp member]
    exact ⟨['a', 'b'], rfl⟩
  · -- the byte behind it would have to begin a character
    intro valid
    have whole : utf8.Encoded [0xC3, 0xA9] := ⟨['é'], rfl⟩
    have border := whole.border_of_take (i := 1) valid 0xA9 rfl
    exact absurd border (show ¬ UInt8.IsUTF8FirstByte 0xA9 by decide)

end MicroVllm
