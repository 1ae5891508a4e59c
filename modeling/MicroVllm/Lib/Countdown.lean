import Mathlib.Data.DFinsupp.WellFounded
import Mathlib.Data.List.Forall2
import Mathlib.Data.Prod.Lex

/-! # Countdowns

A list of numbers compared with another by the first place in which they differ, where a place that
is missing counts for more than any number.  Lists of bounded length cannot go down for ever in this
order: a number that goes down may let all that come after it go up or away.
-/

namespace Countdown

/-! ## The order -/

/-- The number in place `k`. -/
def digit : List ℕ → ℕ → WithTop ℕ
  | [], _ => ⊤
  | x :: _, 0 => x
  | _ :: xs, k + 1 => digit xs k

/-- The first `n` numbers of a list. -/
def digits (n : ℕ) (xs : List ℕ) : Lex (Fin n → WithTop ℕ) := toLex fun i => digit xs i.val

section Order

variable {n : ℕ} {front back back' xs ys : List ℕ}

theorem digit_of_le {k : ℕ} (beyond : xs.length ≤ k) : digit xs k = ⊤ := by
  induction xs generalizing k with
  | nil => rfl
  | cons x xs ih =>
    cases k with
    | zero => simp at beyond
    | succ k => exact ih (Nat.le_of_succ_le_succ beyond)

theorem digit_append_left {k : ℕ} (inside : k < front.length) (rest : List ℕ) :
    digit (front ++ rest) k = digit front k := by
  induction front generalizing k with
  | nil => cases inside
  | cons x front ih =>
    cases k with
    | zero => rfl
    | succ k => exact ih (Nat.lt_of_succ_lt_succ inside)

theorem digit_append_length (front : List ℕ) (x : ℕ) (rest : List ℕ) :
    digit (front ++ x :: rest) front.length = WithTop.some x := by
  induction front with
  | nil => rfl
  | cons y front ih => exact ih

/-- A number goes down, whatever happens behind it. -/
theorem digits_lt_of_lt {x y : ℕ} (less : y < x) (inside : front.length < n) :
    digits n (front ++ y :: back') < digits n (front ++ x :: back) := by
  refine ⟨⟨front.length, inside⟩, ?_, ?_⟩
  · intro j before
    exact (digit_append_left before _).trans (digit_append_left before _).symm
  · show digit (front ++ y :: back') front.length < digit (front ++ x :: back) front.length
    rw [digit_append_length, digit_append_length]
    exact WithTop.coe_lt_coe.mpr less

/-- A missing number turns up. -/
theorem digits_append_lt {x : ℕ} (inside : front.length < n) :
    digits n (front ++ x :: back) < digits n front := by
  refine ⟨⟨front.length, inside⟩, ?_, ?_⟩
  · intro j before
    exact digit_append_left before _
  · show digit (front ++ x :: back) front.length < digit front front.length
    rw [digit_append_length, digit_of_le (Nat.le_refl _)]
    exact WithTop.coe_lt_top x

/-- Numbers can only turn up behind the others. -/
theorem digits_append_le (xs more : List ℕ) : digits n (xs ++ more) ≤ digits n xs := by
  apply Pi.toLex_monotone
  intro i
  show digit (xs ++ more) i.val ≤ digit xs i.val
  by_cases inside : i.val < xs.length
  · rw [digit_append_left inside]
  · rw [digit_of_le (Nat.not_lt.mp inside)]
    exact le_top

/-- No number goes up. -/
theorem digits_le_of_forall₂ (all : List.Forall₂ (fun x y => y ≤ x) xs ys) :
    digits n ys ≤ digits n xs := by
  apply Pi.toLex_monotone
  intro i
  show digit ys i.val ≤ digit xs i.val
  generalize i.val = k
  induction all generalizing k with
  | nil => exact le_refl _
  | cons first _ ih =>
    cases k with
    | zero => exact WithTop.coe_le_coe.mpr first
    | succ k => exact ih k

/-- Where two lists differ that are the same but for what went down. -/
theorem exists_less_of_forall₂ {α : Type} {f : α → ℕ} {as bs : List α}
    (all : List.Forall₂ (fun a b => b = a ∨ f b < f a) as bs) :
    bs = as ∨ ∃ front a back b back', as = front ++ a :: back ∧ bs = front ++ b :: back' ∧ f b < f a := by
  induction all with
  | nil => exact .inl rfl
  | @cons a b as bs first _ ih =>
    rcases first with rfl | less
    · rcases ih with rfl | ⟨front, x, back, y, back', rfl, rfl, less⟩
      · exact .inl rfl
      · exact .inr ⟨b :: front, x, back, y, back', rfl, rfl, less⟩
    · exact .inr ⟨[], a, as, b, bs, rfl, rfl, less⟩

end Order

/-! ## Up to a mark -/

section Marks

variable {α : Type} {p q : α → Bool}

/-- A list up to the first element that is marked, that one included. -/
def upTo (p : α → Bool) : List α → List α
  | [] => []
  | a :: as => if p a then [a] else a :: upTo p as

theorem upTo_append {front : List α} (none : ∀ a ∈ front, p a = false) (rest : List α) :
    upTo p (front ++ rest) = front ++ upTo p rest := by
  induction front with
  | nil => rfl
  | cons a front ih =>
    have here := none a List.mem_cons_self
    rw [List.cons_append, upTo, here, ih fun b member => none b (List.mem_cons_of_mem _ member)]
    rfl

theorem upTo_eq_self {as : List α} (none : ∀ a ∈ as, p a = false) : upTo p as = as := by
  have all := upTo_append none []
  rwa [List.append_nil, upTo, List.append_nil] at all

/-- What comes after a mark is not seen. -/
theorem upTo_append_of_mem {front : List α} {a : α} (member : a ∈ front) (marked : p a = true)
    (rest : List α) : upTo p (front ++ rest) = upTo p front := by
  induction front with
  | nil => cases member
  | cons b front ih =>
    rw [List.cons_append, upTo, upTo]
    split
    · rfl
    · rename_i unmarked
      rcases List.mem_cons.mp member with rfl | later
      · exact absurd marked unmarked
      · rw [ih later]

theorem upTo_congr {as : List α} (same : ∀ a ∈ as, p a = q a) : upTo p as = upTo q as := by
  induction as with
  | nil => rfl
  | cons a as ih =>
    rw [upTo, upTo, same a List.mem_cons_self, ih fun b member => same b (List.mem_cons_of_mem _ member)]

/-- Fewer marks show more. -/
theorem upTo_weaken (fewer : ∀ a, q a = true → p a = true) (as : List α) :
    ∃ more, upTo q as = upTo p as ++ more := by
  induction as with
  | nil => exact ⟨[], rfl⟩
  | cons a as ih =>
    obtain ⟨more, grows⟩ := ih
    by_cases marked : p a = true
    · by_cases still : q a = true
      · exact ⟨[], by rw [upTo, upTo, if_pos still, if_pos marked]; rfl⟩
      · exact ⟨upTo q as, by rw [upTo, upTo, if_neg still, if_pos marked]; rfl⟩
    · have unmarked : ¬ q a = true := fun still => marked (fewer a still)
      exact ⟨more, by rw [upTo, upTo, if_neg unmarked, if_neg marked, grows]; rfl⟩

/-- The same marks, and nothing goes up. -/
theorem forall₂_upTo {R : α → α → Prop} {as bs : List α} (all : List.Forall₂ R as bs)
    (same : ∀ a b, R a b → p b = p a) : List.Forall₂ R (upTo p as) (upTo p bs) := by
  induction all with
  | nil => exact .nil
  | cons first _ ih =>
    rw [upTo, upTo, same _ _ first]
    split
    · exact .cons first .nil
    · exact .cons first ih

end Marks

/-! ## One after the other -/

section Lexicographic

variable {α β : Type} [PartialOrder α] [Preorder β] {a a' : α} {b b' : β}

theorem lt_of_fst_lt (less : a' < a) : toLex (a', b') < toLex (a, b) :=
  Prod.Lex.toLex_lt_toLex.mpr (.inl less)

theorem lt_of_snd_lt (most : a' ≤ a) (less : b' < b) : toLex (a', b') < toLex (a, b) := by
  rcases lt_or_eq_of_le most with below | same
  · exact lt_of_fst_lt below
  · exact Prod.Lex.toLex_lt_toLex.mpr (.inr ⟨same, less⟩)

end Lexicographic

end Countdown
