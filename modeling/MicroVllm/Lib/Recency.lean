import Mathlib.Data.List.MinMax

/-! # Recency by position

The uses of some keys, oldest first.  The stamp of a key is the position of its last use, counted
from one, and zero if it was never used.  This is what a counter that is raised with every use
leaves on the key, so the least recently used of some keys is the one with the smallest stamp.
-/

namespace Recency

variable {α : Type} [DecidableEq α] {uses : List α} {a b : α}

def stamp (uses : List α) (a : α) : Nat := uses.length - uses.reverse.idxOf a

/-- The last use of `a` lies before a use of `b`. -/
def Older (uses : List α) (a b : α) : Prop :=
  ∃ before after, uses = before ++ a :: after ∧ a ∉ after ∧ b ∈ after

theorem stamp_snoc_self (uses : List α) (a : α) : stamp (uses ++ [a]) a = uses.length + 1 := by
  simp [stamp]

theorem stamp_snoc_ne (other : b ≠ a) : stamp (uses ++ [a]) b = stamp uses b := by
  simp only [stamp, List.length_append, List.length_singleton, List.reverse_append,
    List.reverse_singleton, List.singleton_append]
  rw [List.idxOf_cons_ne _ other.symm]
  omega

theorem stamp_append_notMem {later : List α} (absent : b ∉ later) :
    stamp (uses ++ later) b = stamp uses b := by
  induction later generalizing uses with
  | nil => rw [List.append_nil]
  | cons a later ih =>
    rw [List.mem_cons, not_or] at absent
    rw [List.append_cons, ih absent.2]
    exact stamp_snoc_ne absent.1

theorem length_lt_stamp_append (uses : List α) {later : List α} (used : b ∈ later) :
    uses.length < stamp (uses ++ later) b := by
  induction later using List.reverseRecOn generalizing uses with
  | nil => cases used
  | append_singleton later a ih =>
    rw [← List.append_assoc]
    by_cases last : b = a
    · rw [last, stamp_snoc_self, List.length_append]
      omega
    · rw [stamp_snoc_ne last]
      exact ih uses ((List.mem_append.mp used).resolve_right (by simpa using last))

/-- A key that was used has a last use, and its stamp is the position of that. -/
theorem exists_last (used : a ∈ uses) : ∃ before after, uses = before ++ a :: after ∧ a ∉ after ∧
    stamp uses a = before.length + 1 := by
  obtain ⟨after, before, split, fresh⟩ := List.eq_append_cons_of_mem (List.mem_reverse.mpr used)
  have forward := congrArg List.reverse split
  rw [List.reverse_reverse, List.reverse_append, List.reverse_cons, List.append_assoc] at forward
  have unused : a ∉ after.reverse := by simpa using fresh
  refine ⟨before.reverse, after.reverse, forward, unused, ?_⟩
  rw [forward, ← List.append_assoc, stamp_append_notMem unused, stamp_snoc_self]

/-- A key that is not used after the last use of `a` has a smaller stamp. -/
theorem stamp_le_of_notMem (before : List α) {after : List α} (missing : b ∉ after) (other : b ≠ a) :
    stamp (before ++ a :: after) b ≤ before.length := by
  rw [List.append_cons, stamp_append_notMem missing, stamp_snoc_ne other]
  exact Nat.sub_le _ _

/-- Stamps are in the order of the last uses. -/
theorem older_iff_stamp_lt (used : a ∈ uses) : Older uses a b ↔ stamp uses a < stamp uses b := by
  obtain ⟨before, after, split, fresh, own⟩ := exists_last used
  constructor
  · rintro ⟨before', after', split', fresh', later⟩
    have own' : stamp uses a = before'.length + 1 := by
      rw [split', List.append_cons, stamp_append_notMem fresh', stamp_snoc_self]
    rw [own', split', List.append_cons]
    have bound := length_lt_stamp_append (before' ++ [a]) later
    rwa [List.length_append] at bound
  · intro less
    refine ⟨before, after, split, fresh, ?_⟩
    by_contra missing
    have other : b ≠ a := by
      rintro rfl
      omega
    have earlier := stamp_le_of_notMem before missing other
    rw [← split] at earlier
    omega

/-- Keys with the same stamp are the same. -/
theorem eq_of_stamp_eq (used : a ∈ uses) (same : stamp uses a = stamp uses b) : a = b := by
  obtain ⟨before, after, split, fresh, own⟩ := exists_last used
  by_contra other
  by_cases later : b ∈ after
  · have less := (older_iff_stamp_lt used).mp ⟨before, after, split, fresh, later⟩
    omega
  · have earlier := stamp_le_of_notMem before later (Ne.symm other)
    rw [← split] at earlier
    omega

end Recency
