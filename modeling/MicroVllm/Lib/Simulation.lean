import MicroVllm.Lib.Machine

/-! # Machines that follow machines

A forward simulation between two machines with events of their own: whatever the concrete machine
does in one step, the abstract one does in a run of any length, none included, that shows the same
events.  What holds of every run of the abstract machine then holds of what the concrete one shows.
-/

namespace Transition

namespace Machine

variable {S T U E F G : Type}

/-- `n` follows `m` through `R`.  `seen` is what the abstract machine shows of an event; the state
    a step starts from is one that can be reached, so that invariants of `m` can be used. -/
structure Follows (m : Machine S E) (n : Machine T F) (seen : E → Option F) (R : S → T → Prop) : Prop where
  init : ∀ s, m.init s → ∃ t, n.init t ∧ R s t
  step : ∀ past s events s' t, m.Run past s → R s t → m.step s events s' →
    ∃ t', (n.startingAt t).Run (events.filterMap seen) t' ∧ R s' t'

/-- One step is a run. -/
theorem Run.one {n : Machine T F} {t t' : T} {events : List F} (step : n.step t events t') :
    (n.startingAt t).Run events t' := by
  have run : (n.startingAt t).Run ([] ++ events) t' := .next (.start rfl) step
  exact run

/-- Standing still is a run. -/
theorem Run.none {n : Machine T F} (t : T) : (n.startingAt t).Run [] t := .start rfl

namespace Follows

variable {m : Machine S E} {n : Machine T F} {o : Machine U G}
variable {seen : E → Option F} {seen' : F → Option G} {R : S → T → Prop} {Q : T → U → Prop}
variable {past : List E} {s : S}

theorem run (follows : m.Follows n seen R) (run : m.Run past s) :
    ∃ t, n.Run (past.filterMap seen) t ∧ R s t := by
  induction run with
  | start initial => exact (follows.init _ initial).imp fun t both => ⟨.start both.1, both.2⟩
  | next earlier step ih =>
    obtain ⟨t, reached, related⟩ := ih
    obtain ⟨t', answer, related'⟩ := follows.step _ _ _ _ t earlier related step
    rw [List.filterMap_append]
    exact ⟨t', reached.andThen answer, related'⟩

end Follows

end Machine

end Transition
