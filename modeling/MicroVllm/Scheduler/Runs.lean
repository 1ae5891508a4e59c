import MicroVllm.Scheduler.StaticMoves
import MicroVllm.Scheduler.Server

/-! # Invariants of the server

The rule behind every safety result: what holds of the constructed server, survives a
push and a close, and is kept by every move of the thread, holds along every run.  It is
stated for any thread with its moves, and then for each mode.  The moves come with the
slot layout, so no invariant has to carry it.
-/

namespace MicroVllm

open Transition (Machine)

theorem SchedulerConfig.construct_maxBatchSize_pos (caps : EngineCaps) (config : SchedulerConfig) :
    0 < (config.construct caps).maxBatchSize := by
  simp only [construct]
  split
  · simp
  · rename_i positive
    omega

namespace Server

variable {σ τ : Type} {w : World σ} {config : SchedulerConfig} {capacity : Nat} {world : σ}
variable {past : List Event} {s : Server (Continuous σ)}

theorem construct_prefixCaching (off : config.prefixCaching = false) :
    (config.construct w.caps).prefixCaching = false := by
  simp only [SchedulerConfig.construct, SchedulerConfig.settle, SchedulerConfig.clampDonors,
    SchedulerConfig.sizePool, SchedulerConfig.clampBatch]
  split <;> split <;> exact off

@[simp] theorem push_thread (request : Request) (s : Server τ) :
    (s.push request).thread = s.thread := rfl

@[simp] theorem close_thread (s : Server τ) : s.close.thread = s.thread := rfl

@[simp] theorem close_accepted (s : Server τ) : s.close.accepted = s.accepted := rfl

theorem push_accepted_subset (request : Request) (s : Server τ) :
    s.accepted ⊆ (s.push request).accepted := by
  intro r member
  simp only [push]
  split
  · exact List.mem_append_left _ member
  · exact member

section Accepted

variable {step : τ → RequestQueue → Option (List Event × τ × RequestQueue)} {thread : τ}
variable {ok : Server τ → List Event → Server τ → Prop} {s t : Server τ}

theorem Step.accepted_subset {events : List Event} (taken : Step step s events t) : s.accepted ⊆ t.accepted := by
  cases taken with
  | push request => exact push_accepted_subset request s
  | close | run => exact List.Subset.refl _

/-- What is true of the requests accepted in a run is true of those accepted before each of its steps, if
    fewer requests only make it easier. -/
theorem accepting_run {A : List Request → Prop} (fewer : ∀ {xs ys}, xs ⊆ ys → A ys → A xs)
    (run : ((machine step thread capacity).guarded ok).Run past s) (all : A s.accepted) :
    ((machine step thread capacity).guarded fun s events t => ok s events t ∧ A s.accepted).Run past s := by
  induction run with
  | start initial => exact .start initial
  | next earlier taken ih =>
    have before := fewer taken.1.accepted_subset all
    exact .next (ih before) ⟨taken.1, taken.2, before⟩

theorem accepting_each {P : Request → Prop} (run : ((machine step thread capacity).guarded ok).Run past s)
    (all : ∀ r ∈ s.accepted, P r) : ((machine step thread capacity).guarded fun s events t =>
      ok s events t ∧ ∀ r ∈ s.accepted, P r).Run past s :=
  accepting_run (A := fun accepted => ∀ r ∈ accepted, P r) (fun fewer all r member => all r (fewer member)) run all

end Accepted

/-! ## Moves

The two loops differ in what a move is; what follows from their moves along a run is the same. -/

/-- A scheduler thread with what its steps can be.  A step is a move, its events the log the move leaves behind;
    `quiet` is the thread without that log. -/
structure Moves (τ : Type) where
  step : τ → RequestQueue → Option (List Event × τ × RequestQueue)
  Settled : τ → Prop
  Move : τ → RequestQueue → τ → RequestQueue → Prop
  log : τ → List Event
  quiet : τ → τ
  step_move : ∀ {t t' q q' events}, Settled t → step t q = some (events, t', q') →
    ∃ u, Move t q u q' ∧ events = log u ∧ t' = quiet u
  settled_move : ∀ {t u q q'}, Settled t → Move t q u q' → Settled (quiet u)

namespace Moves

variable {k : Moves τ} {m : Machine (Server τ) Event} {thread : τ} {s : Server τ}

/-- The invariant rule, for any machine whose steps are those of the thread and its clients. -/
theorem invariant (steps : ∀ s events t, m.step s events t → Step k.step s events t)
    (settled : ∀ past s, m.Run past s → k.Settled s.thread) (I : List Event → Server τ → Prop)
    (initially : ∀ s, m.init s → I [] s)
    (pushed : ∀ past (s : Server τ) request,
      request.id ∉ s.accepted.map Request.id → I past s → I past (s.push request))
    (closed : ∀ past (s : Server τ), I past s → I past s.close)
    (moved : ∀ past (s : Server τ) u q, m.Run past s → k.Settled s.thread → I past s →
      k.Move s.thread s.queue u q → m.step s (k.log u) { s with thread := k.quiet u, queue := q } →
      I (past ++ k.log u) { s with thread := k.quiet u, queue := q })
    (run : m.Run past s) : I past s := by
  induction run with
  | start initial => exact initially _ initial
  | next earlier step ih =>
    cases steps _ _ _ step with
    | push request fresh => simpa using pushed _ _ request fresh ih
    | close => simpa using closed _ _ ih
    | run stepped =>
      have settled := settled _ _ earlier
      obtain ⟨u, move, rfl, rfl⟩ := k.step_move settled stepped
      exact moved _ _ u _ earlier settled ih move step

theorem settled_run (initially : k.Settled thread) (run : (machine k.step thread capacity).Run past s) :
    k.Settled s.thread := by
  refine run.invariant (fun _ s => k.Settled s.thread) ?_ ?_
  · rintro s rfl
    exact initially
  · intro past s events t settled step
    cases step with
    | push | close => exact settled
    | run stepped =>
      obtain ⟨u, move, rfl, rfl⟩ := k.step_move settled stepped
      exact k.settled_move settled move

/-- The rule for the whole server.  `ok` restricts the steps of the run. -/
@[elab_as_elim]
theorem run_invariant (settled : k.Settled thread) {ok : Server τ → List Event → Server τ → Prop}
    {I : List Event → Server τ → Prop} (initially : I [] { thread := thread, queue := { capacity := capacity } })
    (pushed : ∀ past (s : Server τ) request,
      request.id ∉ s.accepted.map Request.id → I past s → I past (s.push request))
    (closed : ∀ past (s : Server τ), I past s → I past s.close)
    (moved : ∀ past (s : Server τ) u q, ((machine k.step thread capacity).guarded ok).Run past s →
      k.Settled s.thread → I past s → k.Move s.thread s.queue u q →
      ok s (k.log u) { s with thread := k.quiet u, queue := q } →
      I (past ++ k.log u) { s with thread := k.quiet u, queue := q })
    (run : ((machine k.step thread capacity).guarded ok).Run past s) : I past s := by
  refine invariant (k := k) (m := (machine k.step thread capacity).guarded ok) (fun _ _ _ step => step.1)
    (fun _ _ run => settled_run settled run.of_guarded) I ?_ pushed closed ?_ run
  · rintro s rfl
    exact initially
  · exact fun past s u q run settled holds move step => moved past s u q run settled holds move step.2

/-- The rule for what is said of the thread alone. -/
@[elab_as_elim]
theorem thread_invariant (settled : k.Settled thread) {ok : Server τ → List Event → Server τ → Prop}
    {I : List Event → τ → Prop} (initially : I [] thread)
    (moved : ∀ past (s : Server τ) u q, ((machine k.step thread capacity).guarded ok).Run past s →
      k.Settled s.thread → I past s.thread → k.Move s.thread s.queue u q →
      ok s (k.log u) { s with thread := k.quiet u, queue := q } → I (past ++ k.log u) (k.quiet u))
    (run : ((machine k.step thread capacity).guarded ok).Run past s) : I past s.thread :=
  run_invariant (I := fun past s => I past s.thread) settled initially (fun _ _ _ _ holds => holds)
    (fun _ _ holds => holds) moved run

end Moves

/-! ## Continuous mode -/

/-- The thread is where its clients left it. -/
structure Settled (w : World σ) (config : SchedulerConfig) (s : Continuous σ) : Prop where
  layout : s.Layout w config
  silent : s.port.log = []

def continuousMoves (w : World σ) (config : SchedulerConfig) : Moves (Continuous σ) where
  step := Continuous.step w (config.construct w.caps)
  Settled := Settled w (config.construct w.caps)
  Move := Continuous.Move w (config.construct w.caps)
  log s := s.port.log
  quiet := Continuous.quiet
  step_move settled := Continuous.step_move (config.construct_maxBatchSize_pos w.caps) settled.layout
  settled_move settled move := by
    have layout := settled.layout.move move
    exact ⟨⟨layout.slots, layout.hand, layout.origin⟩, rfl⟩

theorem settled_start (w : World σ) (config : SchedulerConfig) (world : σ) :
    (continuousMoves w config).Settled (.start w config world) := ⟨Continuous.layout_start world, rfl⟩

theorem settled_run (run : (continuous w config capacity world).Run past s) :
    Settled w (config.construct w.caps) s.thread := Moves.settled_run (settled_start w config world) run

@[elab_as_elim]
theorem continuous_invariant {ok : Server (Continuous σ) → List Event → Server (Continuous σ) → Prop}
    {I : List Event → Server (Continuous σ) → Prop}
    (initially : I [] { thread := .start w config world, queue := { capacity := capacity } })
    (pushed : ∀ past (s : Server (Continuous σ)) request,
      request.id ∉ s.accepted.map Request.id → I past s → I past (s.push request))
    (closed : ∀ past (s : Server (Continuous σ)), I past s → I past s.close)
    (moved : ∀ past (s : Server (Continuous σ)) thread queue,
      ((continuous w config capacity world).guarded ok).Run past s →
      Settled w (config.construct w.caps) s.thread → I past s →
      Continuous.Move w (config.construct w.caps) s.thread s.queue thread queue →
      ok s thread.port.log { s with thread := thread.quiet, queue := queue } →
      I (past ++ thread.port.log) { s with thread := thread.quiet, queue := queue })
    (run : ((continuous w config capacity world).guarded ok).Run past s) : I past s :=
  Moves.run_invariant (settled_start w config world) initially pushed closed moved run

@[elab_as_elim]
theorem continuous_thread_invariant {ok : Server (Continuous σ) → List Event → Server (Continuous σ) → Prop}
    {I : List Event → Continuous σ → Prop} (initially : I [] (.start w config world))
    (moved : ∀ past (s : Server (Continuous σ)) thread queue,
      ((continuous w config capacity world).guarded ok).Run past s →
      Settled w (config.construct w.caps) s.thread → I past s.thread →
      Continuous.Move w (config.construct w.caps) s.thread s.queue thread queue →
      ok s thread.port.log { s with thread := thread.quiet, queue := queue } →
      I (past ++ thread.port.log) thread.quiet)
    (run : ((continuous w config capacity world).guarded ok).Run past s) : I past s.thread :=
  Moves.thread_invariant (settled_start w config world) initially moved run

/-! ## Static mode -/

structure SettledStatic (s : Static σ) : Prop where
  layout : s.Layout
  silent : s.port.log = []

def staticMoves (w : World σ) (config : SchedulerConfig) : Moves (Static σ) where
  step := Static.step w (config.construct w.caps)
  Settled := SettledStatic
  Move := Static.Move w (config.construct w.caps)
  log s := s.port.log
  quiet := Static.quiet
  step_move settled := Static.step_move settled.layout
  settled_move settled move := by
    have layout := settled.layout.move move
    exact ⟨layout, rfl⟩

theorem settledStatic_start (w : World σ) (config : SchedulerConfig) (world : σ) :
    (staticMoves w config).Settled (.start w config world) := ⟨rfl, rfl⟩

theorem settledStatic_run {s : Server (Static σ)} (run : (static w config capacity world).Run past s) :
    SettledStatic s.thread := Moves.settled_run (settledStatic_start w config world) run

@[elab_as_elim]
theorem static_invariant {ok : Server (Static σ) → List Event → Server (Static σ) → Prop}
    {s : Server (Static σ)} {I : List Event → Server (Static σ) → Prop}
    (initially : I [] { thread := .start w config world, queue := { capacity := capacity } })
    (pushed : ∀ past (s : Server (Static σ)) request,
      request.id ∉ s.accepted.map Request.id → I past s → I past (s.push request))
    (closed : ∀ past (s : Server (Static σ)), I past s → I past s.close)
    (moved : ∀ past (s : Server (Static σ)) thread queue,
      ((static w config capacity world).guarded ok).Run past s →
      SettledStatic s.thread → I past s →
      Static.Move w (config.construct w.caps) s.thread s.queue thread queue →
      ok s thread.port.log { s with thread := thread.quiet, queue := queue } →
      I (past ++ thread.port.log) { s with thread := thread.quiet, queue := queue })
    (run : ((static w config capacity world).guarded ok).Run past s) : I past s :=
  Moves.run_invariant (settledStatic_start w config world) initially pushed closed moved run

@[elab_as_elim]
theorem static_thread_invariant {ok : Server (Static σ) → List Event → Server (Static σ) → Prop}
    {s : Server (Static σ)} {I : List Event → Static σ → Prop} (initially : I [] (.start w config world))
    (moved : ∀ past (s : Server (Static σ)) thread queue,
      ((static w config capacity world).guarded ok).Run past s →
      SettledStatic s.thread → I past s.thread →
      Static.Move w (config.construct w.caps) s.thread s.queue thread queue →
      ok s thread.port.log { s with thread := thread.quiet, queue := queue } →
      I (past ++ thread.port.log) thread.quiet)
    (run : ((static w config capacity world).guarded ok).Run past s) : I past s.thread :=
  Moves.thread_invariant (settledStatic_start w config world) initially moved run

theorem over_run {s : Server (Static σ)} (run : (static w config capacity world).Run past s) :
    s.thread.Over := by
  refine static_thread_invariant (.of_pc (by simp [Static.start])) ?_ run.guarded_true
  intro past s thread queue _ _ isOver move _
  have after : thread.Over := isOver.move move
  exact after

end Server

end MicroVllm
