import MicroVllm.Lib.Machine
import MicroVllm.Scheduler.Static

/-! # The server: client threads, queue and scheduler thread

Client threads call `try_push` and `close`, the scheduler thread takes the steps of its
loop, and the three interleave freely.  The scheduler's own steps touch the queue only
through `pop` and `try_pop`, so one loop turn is one step of the whole.
-/

namespace MicroVllm

open Transition (Machine)

/-- `accepted` is a ghost: every request `try_push` has taken, in order. -/
structure Server (τ : Type) where
  thread : τ
  queue : RequestQueue
  accepted : List Request := []
deriving DecidableEq

namespace Server

variable {σ τ : Type}

def push (request : Request) (s : Server τ) : Server τ :=
  let pushed := s.queue.tryPush request
  { s with
    queue := pushed.2.2
    accepted := if pushed.1 then s.accepted ++ [request] else s.accepted }

def close (s : Server τ) : Server τ := { s with queue := s.queue.close }

/-- The interleavings of a thread with its clients.  `try_push` moves the request it takes,
    promise and all, so a request that was taken is not there to be pushed again. -/
inductive Step (step : τ → RequestQueue → Option (List Event × τ × RequestQueue)) :
    Server τ → List Event → Server τ → Prop where
  | push {s} (request : Request) (fresh : request.id ∉ s.accepted.map Request.id) :
      Step step s [] (s.push request)
  | close {s} : Step step s [] s.close
  | run {s events thread queue} (stepped : step s.thread s.queue = some (events, thread, queue)) :
      Step step s events { s with thread := thread, queue := queue }

/-- A scheduler thread with its clients. -/
def machine (step : τ → RequestQueue → Option (List Event × τ × RequestQueue)) (thread : τ) (capacity : Nat) :
    Machine (Server τ) Event where
  init s := s = { thread := thread, queue := { capacity := capacity } }
  step := Step step

/-- A server in continuous mode, as constructed from `config` with an empty queue. -/
def continuous (w : World σ) (config : SchedulerConfig) (capacity : Nat) (world : σ) :
    Machine (Server (Continuous σ)) Event where
  init s := s = { thread := .start w config world, queue := { capacity := capacity } }
  step := Step (Continuous.step w (config.construct w.caps))

/-- A server in static mode. -/
def static (w : World σ) (config : SchedulerConfig) (capacity : Nat) (world : σ) :
    Machine (Server (Static σ)) Event where
  init s := s = { thread := .start w config world, queue := { capacity := capacity } }
  step := Step (Static.step w (config.construct w.caps))

/-! ## Executable runs -/

inductive Action where
  | push (request : Request)
  | close
  | run
deriving DecidableEq, Repr

/-- Play a schedule; `none` as soon as the thread is asked to step and cannot, a request
    is pushed twice, or a step is not one that `ok` allows. -/
def play (step : τ → RequestQueue → Option (List Event × τ × RequestQueue))
    (ok : Server τ → List Event → Server τ → Bool) :
    List Action → List Event → Server τ → Option (List Event × Server τ)
  | [], past, s => some (past, s)
  | .push request :: rest, past, s =>
    if request.id ∉ s.accepted.map Request.id ∧ ok s [] (s.push request) then
      play step ok rest past (s.push request)
    else none
  | .close :: rest, past, s =>
    if ok s [] s.close then play step ok rest past s.close else none
  | .run :: rest, past, s =>
    match step s.thread s.queue with
    | none => none
    | some (events, thread, queue) =>
      if ok s events { s with thread := thread, queue := queue } then
        play step ok rest (past ++ events) { s with thread := thread, queue := queue }
      else none

/-- A schedule that can be played is a run. -/
theorem run_of_play {m : Machine (Server τ) Event}
    {step : τ → RequestQueue → Option (List Event × τ × RequestQueue)}
    {allowed : Server τ → List Event → Server τ → Prop} [∀ s events t, Decidable (allowed s events t)]
    (steps : m.step = Step step) {actions : List Action} {past past' : List Event} {s t : Server τ}
    (run : (m.guarded allowed).Run past s)
    (played : play step (fun s events t => allowed s events t) actions past s = some (past', t)) :
    (m.guarded allowed).Run past' t := by
  induction actions generalizing past s with
  | nil =>
    simp only [play, Option.some.injEq, Prod.mk.injEq] at played
    obtain ⟨rfl, rfl⟩ := played
    exact run
  | cons action actions ih =>
    cases action with
    | push request =>
      simp only [play, decide_eq_true_eq] at played
      split at played
      · rename_i fits
        have next := run.next (show (m.guarded allowed).step s [] _ from ⟨steps ▸ .push request fits.1, fits.2⟩)
        rw [List.append_nil] at next
        exact ih next played
      · cases played
    | close =>
      simp only [play, decide_eq_true_eq] at played
      split at played
      · rename_i fits
        have next := run.next (show (m.guarded allowed).step s [] _ from ⟨steps ▸ .close, fits⟩)
        rw [List.append_nil] at next
        exact ih next played
      · cases played
    | run =>
      simp only [play, decide_eq_true_eq] at played
      split at played
      · cases played
      · rename_i events thread queue stepped
        split at played
        · rename_i fits
          exact ih (run.next ⟨steps ▸ .run stepped, fits⟩) played
        · cases played

/-- The same for a schedule with nothing to keep to. -/
theorem run_of_free_play {m : Machine (Server τ) Event}
    {step : τ → RequestQueue → Option (List Event × τ × RequestQueue)} {past : List Event} {s t : Server τ}
    {actions : List Action} (steps : m.step = Step step) (initial : m.init s)
    (played : play step (fun _ _ _ => true) actions [] s = some (past, t)) : m.Run past t := by
  have run : (m.guarded fun _ _ _ => True).Run past t :=
    run_of_play steps (.start initial) (by simpa only [decide_true] using played)
  exact run.of_guarded

/-- A schedule that can be played shows that a run reaches what it ends in. -/
theorem exists_guarded {m : Machine (Server τ) Event}
    {step : τ → RequestQueue → Option (List Event × τ × RequestQueue)}
    {allowed : Server τ → List Event → Server τ → Prop} [∀ s events t, Decidable (allowed s events t)]
    {reached : List Event → Server τ → Prop} [∀ past t, Decidable (reached past t)]
    {s : Server τ} (actions : List Action) (steps : m.step = Step step) (initial : m.init s)
    (played : (play step (fun s events t => allowed s events t) actions [] s).any
      (fun r => reached r.1 r.2) = true) :
    ∃ past t, (m.guarded allowed).Run past t ∧ reached past t := by
  obtain ⟨⟨past, t⟩, ends, holds⟩ := (Option.any_eq_true _ _).mp played
  exact ⟨past, t, run_of_play steps (.start initial) ends, of_decide_eq_true holds⟩

theorem exists_run {m : Machine (Server τ) Event}
    {step : τ → RequestQueue → Option (List Event × τ × RequestQueue)}
    {reached : List Event → Server τ → Prop} [∀ past t, Decidable (reached past t)]
    {s : Server τ} (actions : List Action) (steps : m.step = Step step) (initial : m.init s)
    (played : (play step (fun _ _ _ => true) actions [] s).any (fun r => reached r.1 r.2) = true) :
    ∃ past t, m.Run past t ∧ reached past t := by
  obtain ⟨⟨past, t⟩, ends, holds⟩ := (Option.any_eq_true _ _).mp played
  exact ⟨past, t, run_of_free_play steps initial ends, of_decide_eq_true holds⟩

/-- A schedule up to a state and one from there on show that a run goes on as the second does. -/
theorem exists_then {m : Machine (Server τ) Event}
    {step : τ → RequestQueue → Option (List Event × τ × RequestQueue)}
    {allowed : Server τ → List Event → Server τ → Prop} [∀ s events t, Decidable (allowed s events t)]
    {reached : Server τ → List Event → Server τ → Prop} [∀ s more t, Decidable (reached s more t)]
    {first : Server τ} (actions actions' : List Action) (steps : m.step = Step step)
    (initial : m.init first)
    (played : (play step (fun _ _ _ => true) actions [] first).any (fun r =>
      (play step (fun s events t => allowed s events t) actions' [] r.2).any fun r' =>
        reached r.2 r'.1 r'.2) = true) :
    ∃ past s more t, m.Run past s ∧ ((m.startingAt s).guarded allowed).Run more t ∧ reached s more t := by
  obtain ⟨⟨past, s⟩, ends, played⟩ := (Option.any_eq_true _ _).mp played
  obtain ⟨⟨more, t⟩, rest, holds⟩ := (Option.any_eq_true _ _).mp played
  have further : ((m.startingAt s).guarded allowed).Run more t :=
    run_of_play (m := m.startingAt s) steps (.start rfl) rest
  exact ⟨past, s, more, t, run_of_free_play steps initial ends, further, of_decide_eq_true holds⟩

end Server

end MicroVllm
