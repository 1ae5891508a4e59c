import Mathlib.Data.List.Infix

/-! # Occurrences of patterns

Where a pattern occurs in a list, and the least position of a property, as an option that is
`none` when there is no such position.  The lemma that matters for anything that reads a text
piece by piece: an occurrence that was not there before ends in the new piece.
-/

namespace Occurrences

/-- The least number with a property, `none` if there is none. -/
def Least (P : Nat → Prop) : Option Nat → Prop
  | some i => P i ∧ ∀ j < i, ¬ P j
  | none => ∀ i, ¬ P i

namespace Least

variable {P Q : Nat → Prop} {a b : Option Nat}

theorem unique (first : Least P a) (second : Least P b) : a = b := by
  cases a with
  | none =>
    cases b with
    | none => rfl
    | some j => exact absurd second.1 (first j)
  | some i =>
    cases b with
    | none => exact absurd first.1 (second i)
    | some j =>
      by_cases less : i < j
      · exact absurd first.1 (second.2 i less)
      · by_cases more : j < i
        · exact absurd second.1 (first.2 j more)
        · rw [show i = j by omega]

theorem congr (least : Least P a) (same : ∀ i, P i ↔ Q i) : Least Q a := by
  rwa [show Q = P from funext fun i => propext (same i).symm]

/-- Scanning the numbers below a bound finds the least one. -/
theorem find_range [DecidablePred P] {n : Nat} (bounded : ∀ i, P i → i < n) :
    Least P ((List.range n).find? fun i => P i) := by
  cases found : (List.range n).find? fun i => P i with
  | none =>
    intro i holds
    have skipped := List.find?_eq_none.mp found i (List.mem_range.mpr (bounded i holds))
    exact skipped (decide_eq_true holds)
  | some i =>
    rw [List.find?_range_eq_some] at found
    refine ⟨of_decide_eq_true found.1, fun j less holds => ?_⟩
    simpa [holds] using found.2.2 j less

end Least

variable {α : Type}

/-- The pattern stands in the text from position `i` on. -/
def OccursAt (pattern text : List α) (i : Nat) : Prop := pattern <+: text.drop i

namespace OccursAt

variable {pattern text more : List α} {i : Nat}

instance [DecidableEq α] : Decidable (OccursAt pattern text i) :=
  inferInstanceAs (Decidable (pattern <+: text.drop i))

theorem length_le (occurs : OccursAt pattern text i) (some : pattern ≠ []) :
    i + pattern.length ≤ text.length := by
  have fits := List.IsPrefix.length_le occurs
  rw [List.length_drop] at fits
  have positive := List.length_pos_iff.mpr some
  omega

/-- An occurrence that ends before the new part was there already. -/
theorem of_append (occurs : OccursAt pattern (text ++ more) i)
    (within : i + pattern.length ≤ text.length) : OccursAt pattern text i := by
  unfold OccursAt at occurs ⊢
  rw [List.drop_append_of_le_length (by omega)] at occurs
  apply List.prefix_of_prefix_length_le occurs (List.prefix_append _ _)
  rw [List.length_drop]
  omega

theorem infix_iff : pattern <:+: text ↔ ∃ i, OccursAt pattern text i := by
  constructor
  · rintro ⟨before, after, rfl⟩
    refine ⟨before.length, ?_⟩
    unfold OccursAt
    rw [List.append_assoc, List.drop_left]
    exact List.prefix_append _ _
  · rintro ⟨i, occurs⟩
    exact List.IsInfix.trans occurs.isInfix (List.drop_suffix i text).isInfix

end OccursAt

end Occurrences
