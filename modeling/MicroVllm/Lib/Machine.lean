import Mathlib.Tactic.Common

/-! # Machines that emit events

A state machine whose steps emit lists of events, the runs of such a machine with
everything emitted so far, and the two rules every safety proof goes through: a
property kept by each step holds along every run, and a run of a guarded machine is a
run of the machine.
-/

namespace Transition

/-- Every event of a history stands after a history that allows it. -/
def Throughout {E : Type} (ok : List E → E → Prop) (past : List E) : Prop :=
  ∀ before e after, past = before ++ e :: after → ok before e

namespace Throughout

variable {E : Type} {ok : List E → E → Prop}

theorem nil : Throughout ok [] := by
  intro before e after split
  simp at split

theorem snoc {past : List E} {e : E} (earlier : Throughout ok past) (last : ok past e) :
    Throughout ok (past ++ [e]) := by
  intro before e' after split
  -- the event in question is the last one, or the rest of the history ends in it
  rcases List.eq_nil_or_concat after with rfl | ⟨rest, final, rfl⟩
  · obtain ⟨rfl, same⟩ := List.append_inj' split rfl
    cases same
    exact last
  · have longer : past ++ [e] = (before ++ e' :: rest) ++ [final] := by
      rw [split]
      simp
    obtain ⟨rfl, _⟩ := List.append_inj' longer rfl
    exact earlier before e' rest rfl

theorem append {past events : List E} (earlier : Throughout ok past)
    (blind : ∀ before, ∀ e ∈ events, ok before e) : Throughout ok (past ++ events) := by
  induction events generalizing past with
  | nil => rwa [List.append_nil]
  | cons e events ih =>
    have one := earlier.snoc (blind past e List.mem_cons_self)
    have rest := ih one fun before e member => blind before e (List.mem_cons_of_mem _ member)
    rwa [List.append_assoc] at rest

end Throughout

structure Machine (S E : Type) where
  init : S → Prop
  step : S → List E → S → Prop

namespace Machine

variable {S E : Type}

inductive Run (m : Machine S E) : List E → S → Prop where
  | start {s} : m.init s → Run m [] s
  | next {past s events t} : Run m past s → m.step s events t → Run m (past ++ events) t

/-- The machine that only takes the steps `ok` allows. -/
def guarded (m : Machine S E) (ok : S → List E → S → Prop) : Machine S E where
  init := m.init
  step s events t := m.step s events t ∧ ok s events t

/-- The machine that counts its steps of one kind. -/
def counting (m : Machine S E) (kind : S → S → Bool) : Machine (S × Nat) E where
  init s := m.init s.1 ∧ s.2 = 0
  step s events t := m.step s.1 events t.1 ∧ t.2 = s.2 + (kind s.1 t.1).toNat

/-- The same machine, from one state on. -/
def startingAt (m : Machine S E) (s : S) : Machine S E where
  init t := t = s
  step := m.step

namespace Run

variable {m : Machine S E} {past : List E} {s : S}

/-- What can be reached from a state that can be reached can be reached. -/
theorem andThen {more : List E} {t : S} (run : m.Run past s) (rest : (m.startingAt s).Run more t) :
    m.Run (past ++ more) t := by
  induction rest with
  | start initial =>
    cases initial
    rw [List.append_nil]
    exact run
  | next _ step ih =>
    rw [← List.append_assoc]
    exact ih.next step

theorem invariant (I : List E → S → Prop) (initially : ∀ s, m.init s → I [] s)
    (preserved : ∀ past s events t, I past s → m.step s events t → I (past ++ events) t)
    (run : m.Run past s) : I past s := by
  induction run with
  | start initial => exact initially _ initial
  | next _ step ih => exact preserved _ _ _ _ ih step

theorem of_guarded {ok : S → List E → S → Prop} (run : (m.guarded ok).Run past s) :
    m.Run past s := by
  induction run with
  | start initial => exact .start initial
  | next _ step ih => exact .next ih step.1

theorem mono {ok ok' : S → List E → S → Prop} (weaker : ∀ s events t, ok s events t → ok' s events t)
    (run : (m.guarded ok).Run past s) : (m.guarded ok').Run past s := by
  induction run with
  | start initial => exact .start initial
  | next _ step ih => exact .next ih ⟨step.1, weaker _ _ _ step.2⟩

/-- A run is guarded if every step from a state that can be reached is allowed. -/
theorem guard {ok : S → List E → S → Prop}
    (allowed : ∀ past s events t, m.Run past s → m.step s events t → ok s events t)
    (run : m.Run past s) : (m.guarded ok).Run past s := by
  induction run with
  | start initial => exact .start initial
  | next earlier step ih => exact .next ih ⟨step, allowed _ _ _ _ earlier step⟩

theorem of_counting {kind : S → S → Bool} {s : S × Nat} (run : (m.counting kind).Run past s) :
    m.Run past s.1 := by
  induction run with
  | start initial => exact .start initial.1
  | next _ step ih => exact .next ih step.1

/-- Every run can be counted. -/
theorem exists_counting (kind : S → S → Bool) (run : m.Run past s) :
    ∃ n, (m.counting kind).Run past (s, n) := by
  induction run with
  | start initial => exact ⟨0, .start ⟨initial, rfl⟩⟩
  | @next past s events t _ step ih =>
    obtain ⟨n, run⟩ := ih
    exact ⟨n + (kind s t).toNat, .next run ⟨step, rfl⟩⟩

theorem guarded_true (run : m.Run past s) : (m.guarded fun _ _ _ => True).Run past s :=
  run.guard fun _ _ _ _ _ _ => trivial

end Run

end Machine

end Transition
