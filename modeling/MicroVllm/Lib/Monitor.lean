import Mathlib.Algebra.BigOperators.Fin
import Mathlib.Algebra.Order.BigOperators.Group.Finset
import Mathlib.Data.DFinsupp.WellFounded
import Mathlib.Data.Fintype.EquivFin
import MicroVllm.Lib.Simulation

/-! # Monitors

A value that threads share behind a mutex, with one condition variable.  A call takes the mutex, may wait
until the value is as it needs it, goes through its critical section step by step, gives the mutex back and
then wakes whoever waits.  Other threads run in between, a thread that waits may wake up for no reason, and
which one of several is woken is anybody's choice.

Seen from outside every call is one step, taken when it leaves its critical section; and if a call that makes
the value what a waiting thread needs wakes somebody, and only one thread ever waits, then no thread sleeps
while it could go on.
-/

namespace Monitor

open Transition

/-- Whom a call wakes when it is out of its critical section. -/
inductive Wake where
  | nobody
  | one
  | all
deriving DecidableEq, Repr

/-- A critical section: each step looks at the value and changes it, and the last one says what is returned. -/
inductive Section (S R : Type) where
  | leave (result : R) (wake : Wake)
  | act (change : S → S) (next : S → Section S R)

/-- The critical section without anybody else. -/
def Section.run {S R : Type} : Section S R → S → (R × Wake) × S
  | .leave result wake, s => ((result, wake), s)
  | .act change next, s => (next s).run (change s)

/-- The calls that there are: what each of them waits for, and what it does then. -/
structure Methods (S O R : Type) where
  ready : O → S → Bool
  body : O → Section S R

/-- Where a thread is. -/
inductive Phase (S O R : Type) where
  | idle
  | entering (op : O)
  | testing (op : O)
  | asleep (op : O)
  | running (op : O) (rest : Section S R)
  | leaving (wake : Wake)

def Phase.awake {S O R : Type} : Phase S O R → Phase S O R
  | .asleep op => .entering op
  | phase => phase

structure State (ι S O R : Type) where
  value : S
  owner : Option ι := none
  phase : ι → Phase S O R := fun _ => .idle

/-- A call that has returned. -/
structure Call (ι O R : Type) where
  thread : ι
  op : O
  result : R
deriving DecidableEq, Repr

variable {ι S O R : Type} [DecidableEq ι]

namespace State

def put (i : ι) (phase : Phase S O R) (s : State ι S O R) : State ι S O R :=
  { s with phase := Function.update s.phase i phase }

@[simp] theorem put_value (i : ι) (phase : Phase S O R) (s : State ι S O R) : (s.put i phase).value = s.value := rfl

@[simp] theorem put_owner (i : ι) (phase : Phase S O R) (s : State ι S O R) : (s.put i phase).owner = s.owner := rfl

@[simp] theorem put_self (i : ι) (phase : Phase S O R) (s : State ι S O R) : (s.put i phase).phase i = phase :=
  Function.update_self ..

theorem put_other {i j : ι} (apart : j ≠ i) (phase : Phase S O R) (s : State ι S O R) :
    (s.put i phase).phase j = s.phase j := Function.update_of_ne apart ..

/-- Thread `i` has woken all others. -/
def wakeAll (i : ι) (s : State ι S O R) : State ι S O R :=
  { s with phase := fun j => if j = i then .idle else (s.phase j).awake }

theorem wakeAll_self (i : ι) (s : State ι S O R) : (s.wakeAll i).phase i = .idle := if_pos rfl

theorem wakeAll_other {i j : ι} (apart : j ≠ i) (s : State ι S O R) : (s.wakeAll i).phase j = (s.phase j).awake :=
  if_neg apart

end State

/-- What thread `i` does next in the call it has made. -/
inductive Turn (m : Methods S O R) (i : ι) : State ι S O R → List (Call ι O R) → State ι S O R → Prop where
  | acquire {s op} (here : s.phase i = .entering op) (free : s.owner = none) :
      Turn m i s [] { s.put i (.testing op) with owner := some i }
  | enter {s op} (here : s.phase i = .testing op) (ready : m.ready op s.value = true) :
      Turn m i s [] (s.put i (.running op (m.body op)))
  | sleep {s op} (here : s.phase i = .testing op) (unready : m.ready op s.value = false) :
      Turn m i s [] { s.put i (.asleep op) with owner := none }
  | act {s op change next} (here : s.phase i = .running op (.act change next)) :
      Turn m i s [] { s.put i (.running op (next s.value)) with value := change s.value }
  | leave {s op result wake} (here : s.phase i = .running op (.leave result wake)) :
      Turn m i s [⟨i, op, result⟩] { s.put i (.leaving wake) with owner := none }
  | returns {s} (here : s.phase i = .leaving .nobody) : Turn m i s [] (s.put i .idle)
  | wakes {s j op} (here : s.phase i = .leaving .one) (sleeper : s.phase j = .asleep op) :
      Turn m i s [] ((s.put i .idle).put j (.entering op))
  | missed {s} (here : s.phase i = .leaving .one) (empty : ∀ j op, s.phase j ≠ .asleep op) :
      Turn m i s [] (s.put i .idle)
  | wakesAll {s} (here : s.phase i = .leaving .all) : Turn m i s [] (s.wakeAll i)

/-- What can happen: a turn of a thread, a new call, or a thread that wakes up for no reason. -/
inductive Step (m : Methods S O R) (may : ι → O → Prop) :
    State ι S O R → List (Call ι O R) → State ι S O R → Prop where
  | turn {s events t} (i : ι) (turn : Turn m i s events t) : Step m may s events t
  | call {s i op} (here : s.phase i = .idle) (allowed : may i op) : Step m may s [] (s.put i (.entering op))
  | spurious {s i op} (here : s.phase i = .asleep op) : Step m may s [] (s.put i (.entering op))

/-- A monitor used by threads of which each makes the calls it may make. -/
def machine (m : Methods S O R) (may : ι → O → Prop) (value : S) : Machine (State ι S O R) (Call ι O R) where
  init s := s = { value := value }
  step := Step m may

/-- The same, if every call were one step, which is taken when the value is as the call needs it. -/
def atomic (m : Methods S O R) (may : ι → O → Prop) (value : S) : Machine S (Call ι O R) where
  init s := s = value
  step s calls t := ∃ i op result wake, calls = [⟨i, op, result⟩] ∧ may i op ∧ m.ready op s = true ∧
    (m.body op).run s = ((result, wake), t)

/-- The same, with calls that do what `does` states. -/
def serial (does : S → O → R → S → Prop) (may : ι → O → Prop) (value : S) : Machine S (Call ι O R) where
  init s := s = value
  step s calls t := ∃ i op result, calls = [⟨i, op, result⟩] ∧ may i op ∧ does s op result t

omit [DecidableEq ι] in
theorem follows_serial {m : Methods S O R} {does : S → O → R → S → Prop}
    (spec : ∀ {s t op result wake}, m.ready op s = true → (m.body op).run s = ((result, wake), t) → does s op result t)
    (may : ι → O → Prop) (value : S) : (atomic m may value).Follows (serial does may value) some Eq where
  init s initial := ⟨s, initial, rfl⟩
  step past s calls t s' _ same step := by
    subst same
    rw [List.filterMap_some]
    obtain ⟨i, op, result, wake, rfl, allowed, ready, ran⟩ := step
    exact ⟨t, .one ⟨i, op, result, rfl, allowed, spec ready ran⟩, rfl⟩

/-! ## Calls are atomic -/

/-- What is known of a thread while the value is, or is about to be, `t`: the one in the critical section has
    made of `t` what it would make of it alone. -/
def Stands (m : Methods S O R) (may : ι → O → Prop) (value t : S) (owner : Option ι) (i : ι) :
    Phase S O R → Prop
  | .idle | .leaving _ => owner ≠ some i
  | .entering op | .asleep op => owner ≠ some i ∧ may i op
  | .testing op => owner = some i ∧ may i op ∧ value = t
  | .running op rest => owner = some i ∧ may i op ∧ m.ready op t = true ∧ rest.run value = (m.body op).run t

structure Sees (m : Methods S O R) (may : ι → O → Prop) (s : State ι S O R) (t : S) : Prop where
  free : s.owner = none → s.value = t
  each : ∀ i, Stands m may s.value t s.owner i (s.phase i)

section Simulation

variable {m : Methods S O R} {may : ι → O → Prop} {s : State ι S O R} {t : S}

omit [DecidableEq ι] in
/-- A thread outside of the critical section does not see what becomes of the value. -/
theorem Stands.outside {value value' t' : S} {owner owner' : Option ι} {i : ι} {phase : Phase S O R}
    (stands : Stands m may value t owner i phase) (before : owner ≠ some i) (after : owner' ≠ some i) :
    Stands m may value' t' owner' i phase := by
  cases phase with
  | idle | leaving => exact after
  | entering | asleep => exact ⟨after, stands.2⟩
  | testing | running => exact absurd stands.1 before

namespace Sees

/-- One thread moves. -/
theorem put {value t' : S} {owner : Option ι} {i : ι} {phase : Phase S O R} (free : owner = none → value = t')
    (mine : Stands m may value t' owner i phase)
    (others : ∀ j, j ≠ i → Stands m may value t' owner j (s.phase j)) :
    Sees m may { s.put i phase with value := value, owner := owner } t' := by
  refine ⟨free, fun j => ?_⟩
  by_cases own : j = i
  · subst own
    simpa using mine
  · simpa [State.put_other own] using others j own

/-- The thread in the critical section moves. -/
theorem within (sees : Sees m may s t) {value t' : S} {owner : Option ι} {i : ι} {phase : Phase S O R}
    (mine : s.owner = some i) (free : owner = none → value = t') (after : owner = none ∨ owner = some i)
    (stands : Stands m may value t' owner i phase) :
    Sees m may { s.put i phase with value := value, owner := owner } t' := by
  refine put free stands fun j apart => (sees.each j).outside ?_ ?_
  · rw [mine]
    exact fun same => apart (Option.some.inj same).symm
  · rcases after with none | same
    · simp [none]
    · rw [same]
      exact fun same => apart (Option.some.inj same).symm

/-- A thread outside of it moves. -/
theorem aside (sees : Sees m may s t) {i : ι} {phase : Phase S O R} (stands : Stands m may s.value t s.owner i phase) :
    Sees m may (s.put i phase) t :=
  put sees.free stands fun j _ => sees.each j

/-- A call is seen from outside when it leaves its critical section, and as if it had been alone. -/
theorem turn (sees : Sees m may s t) {i : ι} {calls : List (Call ι O R)} {s' : State ι S O R}
    (turn : Turn m i s calls s') :
    calls = [] ∧ Sees m may s' t ∨
      ∃ op result wake t', calls = [⟨i, op, result⟩] ∧ s.phase i = .running op (.leave result wake) ∧
        may i op ∧ m.ready op t = true ∧ (m.body op).run t = ((result, wake), t') ∧ Sees m may s' t' := by
  have mine := sees.each i
  cases turn with
  | acquire here free =>
    rw [here] at mine
    refine .inl ⟨rfl, put (fun none => nomatch none) ⟨rfl, mine.2, sees.free free⟩ fun j apart => ?_⟩
    refine (sees.each j).outside (by simp [free]) ?_
    exact fun same => apart (Option.some.inj same).symm
  | enter here ready =>
    rw [here] at mine
    obtain ⟨owner, allowed, same⟩ := mine
    refine .inl ⟨rfl, sees.aside ⟨owner, allowed, same ▸ ready, by rw [same]⟩⟩
  | sleep here unready =>
    rw [here] at mine
    obtain ⟨owner, allowed, same⟩ := mine
    exact .inl ⟨rfl, sees.within owner (fun _ => same) (.inl rfl) ⟨nofun, allowed⟩⟩
  | act here =>
    rw [here] at mine
    obtain ⟨owner, allowed, ready, rest⟩ := mine
    refine .inl ⟨rfl, sees.within owner ?_ (.inr owner) ⟨owner, allowed, ready, rest⟩⟩
    simp [owner]
  | @leave op result wake here =>
    rw [here] at mine
    obtain ⟨owner, allowed, ready, rest⟩ := mine
    refine .inr ⟨op, result, wake, s.value, rfl, here, allowed, ready, rest.symm, ?_⟩
    exact sees.within owner (fun _ => rfl) (.inl rfl) nofun
  | returns here | missed here =>
    rw [here] at mine
    exact .inl ⟨rfl, sees.aside mine⟩
  | @wakes j op here sleeper =>
    rw [here] at mine
    have other := sees.each j
    rw [sleeper] at other
    have idle : Sees m may (s.put i .idle) t := sees.aside mine
    exact .inl ⟨rfl, idle.aside other⟩
  | wakesAll here =>
    rw [here] at mine
    refine .inl ⟨rfl, sees.free, fun j => ?_⟩
    have other := sees.each j
    show Stands m may s.value t s.owner j _
    by_cases own : j = i
    · subst own
      rw [State.wakeAll_self]
      exact mine
    · rw [State.wakeAll_other own]
      cases phase : s.phase j <;> (rw [phase] at other; exact other)

end Sees

/-- Whatever happens, the atomic monitor takes the calls that return for its steps. -/
theorem follows (m : Methods S O R) (may : ι → O → Prop) (value : S) :
    (machine m may value).Follows (atomic m may value) some (Sees m may) where
  init s initial := by
    cases initial
    exact ⟨value, rfl, fun _ => rfl, fun _ => nofun⟩
  step past s calls s' t _ sees step := by
    rw [List.filterMap_some]
    cases step with
    | turn i turn =>
      rcases sees.turn turn with ⟨rfl, after⟩ | ⟨op, result, wake, t', rfl, _, allowed, ready, ran, after⟩
      · exact ⟨t, .none t, after⟩
      · exact ⟨t', .one ⟨i, op, result, wake, rfl, allowed, ready, ran⟩, after⟩
    | @call i op here allowed =>
      have mine := sees.each i
      rw [here] at mine
      exact ⟨t, .none t, sees.aside ⟨mine, allowed⟩⟩
    | @spurious i op here =>
      have mine := sees.each i
      rw [here] at mine
      exact ⟨t, .none t, sees.aside mine⟩

/-! ## Nobody sleeps too long -/

/-- A thread that sleeps while it could go on is about to be woken. -/
structure Alert (m : Methods S O R) (s : State ι S O R) (t : S) : Prop where
  waits : ∀ i op, s.phase i = .asleep op → ∃ v, m.ready op v = false
  woken : ∀ i op, s.phase i = .asleep op → m.ready op t = true →
    ∃ j wake, s.phase j = .leaving wake ∧ wake ≠ .nobody

/-- Only one thread makes calls that wait. -/
def Single (m : Methods S O R) (may : ι → O → Prop) : Prop :=
  ∀ i j op op' v v', may i op → may j op' → m.ready op v = false → m.ready op' v' = false → i = j

/-- A call that makes the value what another one waits for wakes somebody. -/
def Alerts (m : Methods S O R) : Prop :=
  ∀ op op' v result wake v', m.ready op v = false → (m.body op').run v = ((result, wake), v') →
    m.ready op v' = true → wake ≠ .nobody

namespace Alert

/-- A thread goes on that neither wakes anybody nor goes to sleep. -/
theorem put (alert : Alert m s t) {value : S} {owner : Option ι} {i : ι} {phase : Phase S O R}
    (silent : ∀ wake, s.phase i = .leaving wake → wake = .nobody) (awake : ∀ op, phase ≠ .asleep op) :
    Alert m { s.put i phase with value := value, owner := owner } t := by
  have same : ∀ j, j ≠ i → (s.put i phase).phase j = s.phase j := fun j apart => State.put_other apart phase s
  have other : ∀ j op, (s.put i phase).phase j = .asleep op → s.phase j = .asleep op := by
    intro j op here
    by_cases own : j = i
    · subst own
      rw [State.put_self] at here
      exact absurd here (awake op)
    · rwa [same j own] at here
  refine ⟨fun j op here => alert.waits j op (other j op here), fun j op here ready => ?_⟩
  obtain ⟨k, wake, leaving, loud⟩ := alert.woken j op (other j op here) ready
  refine ⟨k, wake, ?_, loud⟩
  show (s.put i phase).phase k = .leaving wake
  rw [same k fun own => loud (silent wake (own ▸ leaving))]
  exact leaving

omit [DecidableEq ι] in
/-- Nobody is asleep any more. -/
theorem of_awake {s' : State ι S O R} (awake : ∀ j op, s'.phase j ≠ .asleep op) : Alert m s' t :=
  ⟨fun j op here => absurd here (awake j op), fun j op here => absurd here (awake j op)⟩

/-- A turn that nobody sees. -/
theorem turn (sees : Sees m may s t) (alert : Alert m s t) (single : Single m may) {i : ι} {s' : State ι S O R}
    (turn : Turn m i s [] s') : Alert m s' t := by
  cases turn with
  | acquire here | enter here | act here =>
    exact alert.put (by simp [here]) (by simp)
  | returns here => exact alert.put (by simp [here]) (by simp)
  | @sleep op here unready =>
    -- the value is not what the call waits for
    have mine := sees.each i
    rw [here] at mine
    obtain ⟨_, _, rfl⟩ := mine
    constructor
    · intro j op' asleep
      by_cases own : j = i
      · subst own
        have same : op = op' := by simpa using asleep
        subst same
        exact ⟨_, unready⟩
      · exact alert.waits j op' (by simpa [State.put_other own] using asleep)
    · intro j op' asleep ready
      by_cases own : j = i
      · subst own
        have same : op = op' := by simpa using asleep
        subst same
        rw [unready] at ready
        cases ready
      · obtain ⟨k, wake, leaving, loud⟩ := alert.woken j op' (by simpa [State.put_other own] using asleep) ready
        have apart : k ≠ i := by
          rintro rfl
          rw [here] at leaving
          cases leaving
        exact ⟨k, wake, by simpa [State.put_other apart] using leaving, loud⟩
  | @wakes j op here sleeper =>
    -- the one who is woken is the only one who sleeps
    refine of_awake fun k op' asleep => ?_
    by_cases own : k = j
    · subst own
      simp at asleep
    · rw [State.put_other own] at asleep
      have still : s.phase k = .asleep op' := by
        by_cases first : k = i
        · subst first
          simp at asleep
        · rwa [State.put_other first] at asleep
      obtain ⟨v, unready⟩ := alert.waits j op sleeper
      obtain ⟨v', unready'⟩ := alert.waits k op' still
      have allowed := sees.each j
      have allowed' := sees.each k
      rw [sleeper] at allowed
      rw [still] at allowed'
      exact own (single k j op' op v' v allowed'.2 allowed.2 unready' unready)
  | missed here empty =>
    refine of_awake fun k op asleep => ?_
    by_cases own : k = i
    · subst own
      simp at asleep
    · rw [State.put_other own] at asleep
      exact empty k op asleep
  | wakesAll here =>
    refine of_awake fun k op asleep => ?_
    by_cases own : k = i
    · subst own
      rw [State.wakeAll_self] at asleep
      cases asleep
    · rw [State.wakeAll_other own] at asleep
      cases phase : s.phase k <;> simp [phase, Phase.awake] at asleep

/-- A call leaves its critical section. -/
theorem leave (alert : Alert m s t) (alerts : Alerts m) {i : ι} {op : O} {result : R} {wake : Wake} {t' : S}
    (here : s.phase i = .running op (.leave result wake)) (ran : (m.body op).run t = ((result, wake), t')) :
    Alert m { s.put i (.leaving wake) with owner := none } t' := by
  have other : ∀ j op', (s.put i (.leaving wake)).phase j = .asleep op' → s.phase j = .asleep op' := by
    intro j op' asleep
    by_cases own : j = i
    · subst own
      simp at asleep
    · rwa [State.put_other own] at asleep
  refine ⟨fun j op' asleep => alert.waits j op' (other j op' asleep), fun j op' asleep ready => ?_⟩
  by_cases before : m.ready op' t = true
  · obtain ⟨k, wake', leaving, loud⟩ := alert.woken j op' (other j op' asleep) before
    have apart : k ≠ i := by
      rintro rfl
      rw [here] at leaving
      cases leaving
    refine ⟨k, wake', ?_, loud⟩
    show (s.put i (.leaving wake)).phase k = _
    rw [State.put_other apart]
    exact leaving
  · refine ⟨i, wake, State.put_self .., ?_⟩
    exact alerts op' op t result wake t' (by simpa using before) ran ready

end Alert

/-- With one thread that waits, and calls that wake it, the calls are atomic and nobody sleeps too long. -/
theorem follows_alert {m : Methods S O R} {may : ι → O → Prop} (single : Single m may) (alerts : Alerts m)
    (value : S) :
    (machine m may value).Follows (atomic m may value) some fun s t => Sees m may s t ∧ Alert m s t where
  init s initial := by
    obtain ⟨t, initial', sees⟩ := (follows m may value).init s initial
    cases initial
    exact ⟨t, initial', sees, .of_awake fun _ _ => nofun⟩
  step past s calls s' t _ related step := by
    obtain ⟨sees, alert⟩ := related
    rw [List.filterMap_some]
    cases step with
    | turn i turn =>
      rcases sees.turn turn with ⟨rfl, after⟩ | ⟨op, result, wake, t', rfl, here, allowed, ready, ran, after⟩
      · exact ⟨t, .none t, after, alert.turn sees single turn⟩
      · refine ⟨t', .one ⟨i, op, result, wake, rfl, allowed, ready, ran⟩, after, ?_⟩
        cases turn with
        | leave here' =>
          rw [here] at here'
          cases here'
          exact alert.leave alerts here ran
    | @call i op here allowed =>
      have mine := sees.each i
      rw [here] at mine
      exact ⟨t, .none t, sees.aside ⟨mine, allowed⟩, alert.put (by simp [here]) nofun⟩
    | @spurious i op here =>
      have mine := sees.each i
      rw [here] at mine
      exact ⟨t, .none t, sees.aside mine, alert.put (by simp [here]) nofun⟩

/-- No thread can go on with the call it has made. -/
def Stuck (m : Methods S O R) (s : State ι S O R) : Prop := ∀ i calls s', ¬ Turn m i s calls s'

theorem Stuck.of_rest (rest : ∀ i, s.phase i = .idle ∨ ∃ op, s.phase i = .asleep op) : Stuck m s := by
  intro i calls s' turn
  have mine := rest i
  cases turn <;> simp_all

/-- When no thread can go on, every call has returned, except for those that wait for what the value is not. -/
theorem at_rest (sees : Sees m may s t) (alert : Alert m s t) (stuck : Stuck m s) :
    s.value = t ∧ ∀ i, s.phase i = .idle ∨ ∃ op, s.phase i = .asleep op ∧ may i op ∧ m.ready op t = false := by
  -- nobody is in a critical section, and nobody is on the way out
  have unlocked : s.owner = none := by
    cases owner : s.owner with
    | none => rfl
    | some i =>
      exfalso
      have mine := sees.each i
      rw [owner] at mine
      cases phase : s.phase i with
      | idle | leaving => rw [phase] at mine; exact mine rfl
      | entering | asleep => rw [phase] at mine; exact mine.1 rfl
      | testing op =>
        cases ready : m.ready op s.value with
        | true => exact stuck i _ _ (.enter phase ready)
        | false => exact stuck i _ _ (.sleep phase ready)
      | running op rest =>
        cases rest with
        | leave result wake => exact stuck i _ _ (.leave phase)
        | act change next => exact stuck i _ _ (.act phase)
  have silent : ∀ i wake, s.phase i ≠ .leaving wake := by
    intro i wake leaving
    cases wake with
    | nobody => exact stuck i _ _ (.returns leaving)
    | one =>
      by_cases sleeper : ∃ j op, s.phase j = .asleep op
      · obtain ⟨j, op, asleep⟩ := sleeper
        exact stuck i _ _ (.wakes leaving asleep)
      · exact stuck i _ _ (.missed leaving fun j op asleep => sleeper ⟨j, op, asleep⟩)
    | all => exact stuck i _ _ (.wakesAll leaving)
  refine ⟨sees.free unlocked, fun i => ?_⟩
  have mine := sees.each i
  rw [unlocked] at mine
  cases phase : s.phase i with
  | idle => exact .inl rfl
  | entering op => exact absurd (.acquire phase unlocked) (stuck i _ _)
  | testing | running => rw [phase] at mine; cases mine.1
  | leaving wake => exact absurd phase (silent i wake)
  | asleep op =>
    rw [phase] at mine
    refine .inr ⟨op, rfl, mine.2, ?_⟩
    rw [Bool.eq_false_iff]
    intro ready
    obtain ⟨j, wake, leaving, _⟩ := alert.woken i op phase ready
    exact silent j wake leaving

/-- The calls that have returned are those of a run in which every call is one step; and when nobody can go on,
    the value is what that run has made of it, and nobody sleeps who could go on. -/
theorem run_atomic {value : S} {past : List (Call ι O R)} (run : (machine m may value).Run past s) :
    ∃ t, (atomic m may value).Run past t ∧ (s.owner = none → s.value = t) ∧
      (Single m may → Alerts m → Stuck m s → s.value = t ∧
        ∀ i, s.phase i = .idle ∨ ∃ op, s.phase i = .asleep op ∧ may i op ∧ m.ready op t = false) := by
  by_cases woken : Single m may ∧ Alerts m
  · obtain ⟨t, run', sees, alert⟩ := (follows_alert woken.1 woken.2 value).run run
    rw [List.filterMap_some] at run'
    exact ⟨t, run', sees.free, fun _ _ stuck => at_rest sees alert stuck⟩
  · obtain ⟨t, run', sees⟩ := (follows m may value).run run
    rw [List.filterMap_some] at run'
    exact ⟨t, run', sees.free, fun single alerts => absurd ⟨single, alerts⟩ woken⟩

end Simulation

/-! ## Turns come to an end -/

/-- What is left of a call: it returns, and before that it leaves its critical section. -/
def Phase.weight : Phase S O R → Nat
  | .idle => 0
  | .leaving _ => 1
  | _ => 2

/-- The next phase of a thread that gets no nearer to its return. -/
inductive Phase.Later (m : Methods S O R) : Phase S O R → Phase S O R → Prop where
  | testing {op} : Later m (.testing op) (.entering op)
  | running {op} : Later m (.running op (m.body op)) (.testing op)
  | asleep {op} : Later m (.asleep op) (.testing op)
  | act {op change next} (v : S) : Later m (.running op (next v)) (.running op (.act change next))

theorem Phase.later_wf (m : Methods S O R) : WellFounded (Phase.Later m) := by
  have running : ∀ op rest, Acc (Phase.Later m) (.running op rest) := by
    intro op rest
    induction rest with
    | leave result wake => exact .intro _ fun _ later => nomatch later
    | act change next ih =>
      refine .intro _ fun _ later => ?_
      cases later with
      | act v => exact ih v
  have testing : ∀ op, Acc (Phase.Later m) (.testing op) := by
    refine fun op => .intro _ fun _ later => ?_
    cases later with
    | running => exact running op _
    | asleep => exact .intro _ fun _ later => nomatch later
  refine ⟨fun phase => ?_⟩
  cases phase with
  | entering op =>
    refine .intro _ fun _ later => ?_
    cases later with
    | testing => exact testing op
  | testing op => exact testing op
  | running op rest => exact running op rest
  | idle | asleep | leaving => exact .intro _ fun _ later => nomatch later

section Termination

variable {m : Methods S O R} {s s' : State ι S O R} {i : ι}

omit [DecidableEq ι] in
theorem Phase.Later.weight {phase phase' : Phase S O R} (later : phase.Later m phase') :
    phase.weight = phase'.weight := by
  cases later <;> rfl

theorem weight_put {phase : Phase S O R} (less : phase.weight ≤ (s.phase i).weight) (j : ι) :
    ((s.put i phase).phase j).weight ≤ (s.phase j).weight := by
  by_cases own : j = i
  · subst own
    simpa using less
  · rw [State.put_other own]

/-- No thread is further from its return than it was, and if none is nearer, then only thread `i` has moved. -/
def Nearer (m : Methods S O R) (i : ι) (s s' : State ι S O R) : Prop :=
  (∀ j, (s'.phase j).weight ≤ (s.phase j).weight) ∧
    ((∃ j, (s'.phase j).weight < (s.phase j).weight) ∨
      (s'.phase i).Later m (s.phase i) ∧ ∀ j, j ≠ i → s'.phase j = s.phase j)

theorem Nearer.of_weight {value : S} {owner : Option ι} {phase before : Phase S O R} (here : s.phase i = before)
    (less : phase.weight < before.weight) : Nearer m i s { s.put i phase with value := value, owner := owner } := by
  rw [← here] at less
  exact ⟨weight_put less.le, .inl ⟨i, by simpa using less⟩⟩

theorem Nearer.of_later {value : S} {owner : Option ι} {phase before : Phase S O R} (here : s.phase i = before)
    (later : phase.Later m before) : Nearer m i s { s.put i phase with value := value, owner := owner } := by
  rw [← here] at later
  exact ⟨weight_put later.weight.le, .inr ⟨by simpa using later, fun _ apart => State.put_other apart ..⟩⟩

theorem Turn.nearer {calls : List (Call ι O R)} (turn : Turn m i s calls s') : Nearer m i s s' := by
  cases turn with
  | acquire here free => exact .of_later here .testing
  | enter here ready => exact .of_later here .running
  | sleep here unready => exact .of_later here .asleep
  | act here => exact .of_later here (.act s.value)
  | leave here => exact .of_weight here Nat.one_lt_two
  | returns here | missed here => exact .of_weight here Nat.one_pos
  | @wakes j op here sleeper =>
    have apart : j ≠ i := by
      rintro rfl
      rw [here] at sleeper
      cases sleeper
    have back : Nearer m i s (s.put i .idle) := .of_weight here Nat.one_pos
    have same : ∀ k, (((s.put i .idle).put j (.entering op)).phase k).weight ≤ ((s.put i .idle).phase k).weight :=
      weight_put (by rw [State.put_other apart, sleeper]; exact le_rfl)
    refine ⟨fun k => (same k).trans (back.1 k), .inl ⟨i, ?_⟩⟩
    rw [State.put_other apart.symm, State.put_self, here]
    exact Nat.one_pos
  | wakesAll here =>
    refine ⟨fun j => ?_, .inl ⟨i, by rw [State.wakeAll_self, here]; exact Nat.one_pos⟩⟩
    by_cases own : j = i
    · subst own
      rw [State.wakeAll_self]
      exact Nat.zero_le _
    · rw [State.wakeAll_other own]
      cases s.phase j <;> exact le_rfl

/-- However the threads take turns from here, they come to a state where none can go on. -/
def Ends (m : Methods S O R) (s : State ι S O R) : Prop := Acc (fun s' s => ∃ i calls, Turn m i s calls s') s

/-- As long as no thread makes a call or wakes up for no reason, finitely many threads take finitely many turns. -/
theorem turns_end [Finite ι] (m : Methods S O R) (s : State ι S O R) : Ends m s := by
  obtain ⟨threads⟩ := nonempty_fintype ι
  -- the threads in some order, to look for the first that has moved
  let order : LinearOrder ι := LinearOrder.lift' (Fintype.equivFin ι) (Fintype.equivFin ι).injective
  have phases : WellFounded (@Pi.Lex ι (fun _ => Phase S O R) (· < ·) fun {_} => Phase.Later m) :=
    Pi.Lex.wellFounded _ fun _ => Phase.later_wf m
  refine (Subrelation.wf ?_ (InvImage.wf (fun s : State ι S O R => (∑ i, (s.phase i).weight, s.phase))
    (WellFounded.prod_lex Nat.lt_wfRel.wf phases))).apply s
  rintro s' s ⟨i, calls, turn⟩
  obtain ⟨less, ⟨j, nearer⟩ | ⟨later, same⟩⟩ := turn.nearer
  · exact .left _ _ (Finset.sum_lt_sum (fun k _ => less k) ⟨j, Finset.mem_univ j, nearer⟩)
  · have equal : ∑ k, (s'.phase k).weight = ∑ k, (s.phase k).weight := by
      refine Finset.sum_congr rfl fun k _ => ?_
      by_cases own : k = i
      · rw [own, later.weight]
      · rw [same k own]
    show Prod.Lex _ _ (_, _) (_, _)
    rw [equal]
    exact .right _ ⟨i, fun k before => same k before.ne, later⟩

end Termination

/-- A monitor in which calls of only one kind wait, and whose calls do what `does` states.  However the threads get
    in each other's way, each call that has returned is one step; and if one thread makes the calls that wait, then
    the threads come to where every call has returned or waits for what the value is not. -/
theorem run_serial [Finite ι] {m : Methods S O R} {may : ι → O → Prop} {does : S → O → R → S → Prop} {wait : O}
    {value : S} {past : List (Call ι O R)} {s : State ι S O R}
    (spec : ∀ {s t op result wake}, m.ready op s = true → (m.body op).run s = ((result, wake), t) → does s op result t)
    (waits : ∀ {op v}, m.ready op v = false → op = wait) (alerts : Alerts m)
    (run : (machine m may value).Run past s) :
    Ends m s ∧ ∃ t, (serial does may value).Run past t ∧ (s.owner = none → s.value = t) ∧
      ((∀ i j, may i wait → may j wait → i = j) → Stuck m s →
        s.value = t ∧ ∀ i, s.phase i = .idle ∨ s.phase i = .asleep wait ∧ m.ready wait t = false) := by
  refine ⟨turns_end m s, ?_⟩
  obtain ⟨t, run', free, rest⟩ := run_atomic run
  obtain ⟨_, run'', rfl⟩ := (follows_serial spec may value).run run'
  rw [List.filterMap_some] at run''
  refine ⟨t, run'', free, fun waiter stuck => ?_⟩
  have single : Single m may := by
    intro i j op op' v v' allowed allowed' unready unready'
    obtain rfl := waits unready
    obtain rfl := waits unready'
    exact waiter i j allowed allowed'
  obtain ⟨same, each⟩ := rest single alerts stuck
  refine ⟨same, fun i => ?_⟩
  rcases each i with idle | ⟨op, asleep, _, unready⟩
  · exact .inl idle
  · obtain rfl := waits unready
    exact .inr ⟨asleep, unready⟩

end Monitor
