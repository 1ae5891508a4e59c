import Mathlib.Data.List.Perm.Basic

/-! # Waiting lines

Customers arrive at the back of a queue, go from there to a line, and from the head of the line into
service.  Service ends in any order, and may be broken off, in which case the customer goes back to the head
of the line.  Whoever has not been in service yet then waits in the order of arrival.
-/

namespace Waiting

variable {α : Type} {arrived queue line serving done : List α} {lost : α → Prop} {x : α}

/-- The line is `again`, then `fresh`.  Those in `fresh` and in the queue are the last that arrived; all
    others have been served, are being served, or stand in `again`, because their service was broken off. -/
structure Split (arrived queue line serving done : List α) (lost : α → Prop) (started again fresh : List α) :
    Prop where
  arrived : arrived = started ++ fresh ++ queue
  line : line = again ++ fresh
  started : (done ++ serving ++ again).Perm started
  lost : ∀ x ∈ again, lost x

def InOrder (arrived queue line serving done : List α) (lost : α → Prop) : Prop :=
  ∃ started again fresh, Split arrived queue line serving done lost started again fresh

namespace InOrder

theorem empty (lost : α → Prop) : InOrder [] [] [] [] [] lost :=
  ⟨[], [], [], rfl, rfl, .refl _, nofun⟩

theorem mono {lost' : α → Prop} (more : ∀ x, lost x → lost' x)
    (ordered : InOrder arrived queue line serving done lost) : InOrder arrived queue line serving done lost' := by
  obtain ⟨started, again, fresh, split⟩ := ordered
  exact ⟨started, again, fresh, split.arrived, split.line, split.started,
    fun x member => more x (split.lost x member)⟩

/-- A customer arrives. -/
theorem arrive (x : α) (ordered : InOrder arrived queue line serving done lost) :
    InOrder (arrived ++ [x]) (queue ++ [x]) line serving done lost := by
  obtain ⟨started, again, fresh, split⟩ := ordered
  refine ⟨started, again, fresh, ?_, split.line, split.started, split.lost⟩
  rw [split.arrived, List.append_assoc]

/-- The first of the queue joins the line. -/
theorem join (ordered : InOrder arrived (x :: queue) line serving done lost) :
    InOrder arrived queue (line ++ [x]) serving done lost := by
  obtain ⟨started, again, fresh, split⟩ := ordered
  refine ⟨started, again, fresh ++ [x], ?_, ?_, split.started, split.lost⟩
  · rw [split.arrived, List.append_assoc, List.append_assoc, List.append_assoc]
    rfl
  · rw [split.line, List.append_assoc]

/-- Those in service change places, or leave. -/
theorem proceed {serving' done' : List α} (same : (done' ++ serving').Perm (done ++ serving))
    (ordered : InOrder arrived queue line serving done lost) : InOrder arrived queue line serving' done' lost := by
  obtain ⟨started, again, fresh, split⟩ := ordered
  exact ⟨started, again, fresh, split.arrived, split.line, (same.append_right again).trans split.started,
    split.lost⟩

/-- The head of the line is served. -/
theorem serve {serving' done' : List α} (more : (done' ++ serving').Perm (x :: (done ++ serving)))
    (ordered : InOrder arrived queue (x :: line) serving done lost) :
    InOrder arrived queue line serving' done' lost := by
  obtain ⟨started, again, fresh, split⟩ := ordered
  cases again with
  | nil =>
    -- the first who has not been served yet joins those who have
    have front := split.line
    cases fresh with
    | nil => cases front
    | cons _ fresh =>
      cases front
      refine ⟨started ++ [x], [], line, ?_, rfl, ?_, nofun⟩
      · rw [split.arrived]
        simp
      · have before := split.started
        simp only [List.append_nil] at before ⊢
        exact more.trans ((List.perm_append_singleton x _).symm.trans (before.append_right [x]))
  | cons _ again =>
    have front := split.line
    cases front
    refine ⟨started, again, fresh, split.arrived, rfl, ?_, fun y member => split.lost y (.tail _ member)⟩
    refine (more.append_right again).trans (.trans ?_ split.started)
    exact List.perm_middle.symm

/-- The service of one customer is broken off. -/
theorem requeue {serving' done' : List α} (less : (done ++ serving).Perm (x :: (done' ++ serving'))) (gone : lost x)
    (ordered : InOrder arrived queue line serving done lost) :
    InOrder arrived queue (x :: line) serving' done' lost := by
  obtain ⟨started, again, fresh, split⟩ := ordered
  refine ⟨started, x :: again, fresh, split.arrived, by rw [split.line]; rfl, ?_, ?_⟩
  · exact List.perm_middle.trans ((less.symm.append_right again).trans split.started)
  · intro y member
    rcases List.mem_cons.mp member with rfl | behind
    · exact gone
    · exact split.lost y behind

end InOrder

end Waiting
