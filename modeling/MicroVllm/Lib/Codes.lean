import Mathlib.Data.List.Infix

/-! # Self-synchronising codes

A code whose words can be told apart inside a text: the first letter of a word is a head, no
other letter of it is, and no word is the beginning of another.  A text of such words may be cut
exactly where a head stands, or at its end.
-/

namespace Codes

structure Code (C α : Type) where
  word : C → List α
  head : α → Prop
  word_ne_nil : ∀ c, word c ≠ []
  head_iff : ∀ c i (h : i < (word c).length), head (word c)[i] ↔ i = 0
  word_inj : ∀ c d, word c <+: word d → word c = word d

namespace Code

variable {C α : Type} (code : Code C α)

/-- A text made of words of the code. -/
def Encoded (text : List α) : Prop := ∃ chars : List C, text = chars.flatMap code.word

/-- A word may begin at `i`: there stands a head, or the text has ended. -/
def Border (text : List α) (i : Nat) : Prop := ∀ a, text[i]? = some a → code.head a

variable {code} {text more : List α} {i : Nat}

theorem Encoded.nil : code.Encoded [] := ⟨[], rfl⟩

theorem Encoded.append (first : code.Encoded text) (second : code.Encoded more) :
    code.Encoded (text ++ more) := by
  obtain ⟨chars, rfl⟩ := first
  obtain ⟨chars', rfl⟩ := second
  exact ⟨chars ++ chars', by rw [List.flatMap_append]⟩

theorem Encoded.flatMap {ι : Type} {l : List ι} {f : ι → List α} (each : ∀ a ∈ l, code.Encoded (f a)) :
    code.Encoded (l.flatMap f) := by
  induction l with
  | nil => exact .nil
  | cons a l ih =>
    rw [List.flatMap_cons]
    exact (each a List.mem_cons_self).append (ih fun b member => each b (List.mem_cons_of_mem _ member))

theorem border_append_left (within : i < text.length) : code.Border (text ++ more) i ↔ code.Border text i := by
  unfold Border
  rw [List.getElem?_append_left within]

theorem border_append_right (beyond : text.length ≤ i) :
    code.Border (text ++ more) i ↔ code.Border more (i - text.length) := by
  unfold Border
  rw [List.getElem?_append_right beyond]

theorem border_drop (from_ : Nat) : code.Border (text.drop from_) i ↔ code.Border text (from_ + i) := by
  unfold Border
  rw [List.getElem?_drop]

/-- Inside a word there is no border. -/
theorem not_border_word {c : C} (inside : i < (code.word c).length) (border : code.Border (code.word c) i) :
    i = 0 :=
  (code.head_iff c i inside).mp (border _ (List.getElem?_eq_getElem inside))

theorem Encoded.border_zero (encoded : code.Encoded text) : code.Border text 0 := by
  obtain ⟨chars, rfl⟩ := encoded
  cases chars with
  | nil => intro a here; cases here
  | cons c chars =>
    have positive := List.length_pos_iff.mpr (code.word_ne_nil c)
    rw [List.flatMap_cons, border_append_left positive]
    intro a here
    rw [List.getElem?_eq_getElem positive] at here
    cases here
    exact (code.head_iff c 0 positive).mpr rfl

/-- Both sides of a border are texts of the code. -/
theorem Encoded.cut (encoded : code.Encoded text) (border : code.Border text i) :
    code.Encoded (text.take i) ∧ code.Encoded (text.drop i) := by
  obtain ⟨chars, rfl⟩ := encoded
  induction chars generalizing i with
  | nil => simpa using Encoded.nil
  | cons c chars ih =>
    rw [List.flatMap_cons] at border ⊢
    by_cases inside : i < (code.word c).length
    · -- a border inside the first word is its beginning
      have first := not_border_word inside ((border_append_left inside).mp border)
      subst first
      exact ⟨.nil, c :: chars, rfl⟩
    · have beyond : (code.word c).length ≤ i := Nat.le_of_not_lt inside
      obtain ⟨left, right⟩ := ih ((border_append_right beyond).mp border)
      rw [List.take_append, List.drop_append, List.take_of_length_le beyond, List.drop_of_length_le beyond]
      exact ⟨Encoded.append ⟨[c], by simp⟩ left, right⟩

/-- The first word of a text can be read off it. -/
theorem Encoded.tail {c : C} (encoded : code.Encoded (code.word c ++ more)) : code.Encoded more := by
  obtain ⟨chars, spelled⟩ := encoded
  cases chars with
  | nil => exact absurd (List.append_eq_nil_iff.mp spelled).1 (code.word_ne_nil c)
  | cons d chars =>
    rw [List.flatMap_cons] at spelled
    have same : code.word c = code.word d := by
      rcases List.prefix_or_prefix_of_prefix (List.prefix_append (code.word c) more)
        (spelled ▸ List.prefix_append (code.word d) (chars.flatMap code.word)) with before | after
      · exact code.word_inj c d before
      · exact (code.word_inj d c after).symm
    rw [same] at spelled
    exact ⟨chars, List.append_cancel_left spelled⟩

/-- A text cut into two such that the first part is still one was cut at a border. -/
theorem Encoded.border_of_take (encoded : code.Encoded text) (first : code.Encoded (text.take i)) :
    code.Border text i := by
  obtain ⟨chars, rfl⟩ := encoded
  induction chars generalizing i with
  | nil => intro a here; cases here
  | cons c chars ih =>
    rw [List.flatMap_cons] at first ⊢
    by_cases inside : i < (code.word c).length
    · by_cases start : i = 0
      · subst start
        exact Encoded.border_zero ⟨c :: chars, rfl⟩
      · -- the part would begin with a word that is a proper beginning of `c`'s
        exfalso
        rw [List.take_append_of_le_length (Nat.le_of_lt inside)] at first
        obtain ⟨chars', spelled⟩ := first
        have length := congrArg List.length spelled
        rw [List.length_take_of_le (Nat.le_of_lt inside)] at length
        cases chars' with
        | nil => exact start length
        | cons d chars' =>
          rw [List.flatMap_cons] at spelled length
          have begins : code.word d <+: code.word c :=
            (spelled ▸ List.prefix_append _ _ : code.word d <+: (code.word c).take i).trans
              (List.take_prefix _ _)
          rw [code.word_inj d c begins, List.length_append] at length
          omega
    · have beyond : (code.word c).length ≤ i := Nat.le_of_not_lt inside
      rw [List.take_append, List.take_of_length_le beyond] at first
      exact (border_append_right beyond).mpr (ih first.tail)

end Code

end Codes
