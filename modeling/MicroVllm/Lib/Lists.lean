import Mathlib.Data.List.Forall2
import Mathlib.Data.List.Nodup
import Mathlib.Data.List.Perm.Lattice

/-! # Lists related element by element, and lists of keyed values -/

namespace Lists

variable {α β : Type}

theorem exists_of_forall₂_right {R : α → β → Prop} {l : List α} {l' : List β}
    (related : List.Forall₂ R l l') {b : β} (member : b ∈ l') : ∃ a ∈ l, R a b := by
  induction related with
  | nil => cases member
  | cons head _ ih =>
    rcases List.mem_cons.mp member with rfl | later
    · exact ⟨_, List.mem_cons_self, head⟩
    · obtain ⟨a, inside, holds⟩ := ih later
      exact ⟨a, List.mem_cons_of_mem _ inside, holds⟩

theorem exists_of_forall₂_left {R : α → β → Prop} {l : List α} {l' : List β}
    (related : List.Forall₂ R l l') {a : α} (member : a ∈ l) : ∃ b ∈ l', R a b :=
  exists_of_forall₂_right (R := flip R) related.flip member

theorem forall₂_trans {R : α → α → Prop} (trans : ∀ {a b c}, R a b → R b c → R a c)
    {l l' l'' : List α} (first : List.Forall₂ R l l') (second : List.Forall₂ R l' l'') :
    List.Forall₂ R l l'' := by
  induction first generalizing l'' with
  | nil => cases second; exact .nil
  | cons head _ ih =>
    cases second with
    | cons head' tail' => exact .cons (trans head head') (ih tail')

theorem forall₂_around {R : α → α → Prop} (refl : ∀ a, R a a) {a b : α} {before after : List α}
    (related : R a b) : List.Forall₂ R (before ++ a :: after) (before ++ b :: after) := by
  have all : ∀ l : List α, List.Forall₂ R l l := fun l => List.forall₂_same.mpr fun c _ => refl c
  exact List.rel_append (all before) (.cons related (all after))

/-- What is left when one element is taken out was there before. -/
theorem mem_of_without {l before after : List α} {a b : α} (here : l = before ++ a :: after)
    (member : b ∈ before ++ after) : b ∈ l := by
  rw [here]
  exact ((List.sublist_cons_self a after).append_left before).subset member

/-- When one element is replaced, the others were there before. -/
theorem mem_of_around {l before after : List α} {a a' b : α} (here : l = before ++ a :: after)
    (member : b ∈ before ++ a' :: after) : b = a' ∨ b ∈ l := by
  rw [List.mem_append, List.mem_cons] at member
  rcases member with earlier | same | later
  · exact .inr (mem_of_without here (List.mem_append_left _ earlier))
  · exact .inl same
  · exact .inr (mem_of_without here (List.mem_append_right _ later))

theorem forall₂_imp_mem {R S : α → β → Prop} {l : List α} {l' : List β}
    (weaker : ∀ a ∈ l, ∀ b, R a b → S a b) (related : List.Forall₂ R l l') : List.Forall₂ S l l' := by
  induction related with
  | nil => exact .nil
  | cons head _ ih =>
    exact .cons (weaker _ List.mem_cons_self _ head)
      (ih fun a member => weaker a (List.mem_cons_of_mem _ member))

theorem map_eq_of_forall₂ {f : α → β} {l l' : List α} (related : List.Forall₂ (fun a b => f b = f a) l l') :
    l'.map f = l.map f := by
  induction related with
  | nil => rfl
  | cons head _ ih => rw [List.map_cons, List.map_cons, head, ih]

theorem getElem?_of_forall₂ {R : α → β → Prop} {l : List α} {l' : List β}
    (related : List.Forall₂ R l l') {k : Nat} {b : β} (here : l'[k]? = some b) :
    ∃ a, l[k]? = some a ∧ R a b := by
  induction related generalizing k with
  | nil => simp at here
  | cons head _ ih =>
    cases k with
    | zero =>
      cases here
      exact ⟨_, rfl, head⟩
    | succ k => exact ih here

/-- A pair taken out of a list without repeated keys. -/
theorem perm_cons_filter_ne [DecidableEq α] {l : List (α × β)} {p : α × β}
    (nodup : (l.map Prod.fst).Nodup) (member : p ∈ l) :
    l.Perm (p :: l.filter (·.1 ≠ p.1)) := by
  induction l with
  | nil => cases member
  | cons q l ih =>
    rw [List.map_cons, List.nodup_cons] at nodup
    rcases List.mem_cons.mp member with rfl | later
    · have same : l.filter (·.1 ≠ p.1) = l := by
        rw [List.filter_eq_self]
        intro r inside
        simp only [ne_eq, decide_eq_true_eq]
        intro equal
        exact nodup.1 (equal ▸ List.mem_map_of_mem inside)
      simp only [ne_eq, not_true_eq_false, decide_false, Bool.false_eq_true, not_false_eq_true,
        List.filter_cons_of_neg]
      rw [same]
    · have different : q.1 ≠ p.1 := fun equal =>
        nodup.1 (equal ▸ List.mem_map_of_mem later)
      rw [List.filter_cons_of_pos (by simpa using different)]
      exact ((ih nodup.2 later).cons q).trans (List.Perm.swap _ _ _)

/-- What passes a filter contributes everything when the rest contributes nothing. -/
theorem flatMap_filter_eq {f : α → List β} {keep : α → Bool} {l : List α}
    (rest : ∀ a ∈ l, keep a = false → f a = []) : (l.filter keep).flatMap f = l.flatMap f := by
  induction l with
  | nil => rfl
  | cons a l ih =>
    have tail := ih fun b member => rest b (List.mem_cons_of_mem _ member)
    cases kept : keep a with
    | true => rw [List.filter_cons_of_pos kept, List.flatMap_cons, List.flatMap_cons, tail]
    | false =>
      rw [List.filter_cons_of_neg (by simp [kept]), List.flatMap_cons,
        rest a List.mem_cons_self kept, List.nil_append, tail]

end Lists
