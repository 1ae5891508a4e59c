import Mathlib.Data.List.Basic

/-! # Sources that listen

A source starts from its parameters, absorbs tokens one by one, and when it is asked it draws a token and
whether that is the last one.  What it draws may depend on all it has absorbed and drawn.  A source that is
given a prompt and then always what it has drawn itself produces one stream, whatever the pieces in which the
prompt reached it.
-/

/-- `size` counts the tokens a source has absorbed. -/
structure Source (P T β : Type) where
  start : P → β
  absorb : T → β → β
  draw : β → (T × Bool) × β
  size : β → Nat
  size_start : ∀ p, size (start p) = 0
  size_absorb : ∀ t b, size (absorb t b) = size b + 1
  size_draw : ∀ b, size (draw b).2 = size b

namespace Source

variable {P T β : Type} (a : Source P T β)

def absorbs (tokens : List T) (b : β) : β := tokens.foldl (fun b t => a.absorb t b) b

@[simp] theorem absorbs_nil (b : β) : a.absorbs [] b = b := rfl

theorem absorbs_append (tokens more : List T) (b : β) :
    a.absorbs (tokens ++ more) b = a.absorbs more (a.absorbs tokens b) := List.foldl_append

theorem size_absorbs (tokens : List T) (b : β) : a.size (a.absorbs tokens b) = a.size b + tokens.length := by
  induction tokens generalizing b with
  | nil => rfl
  | cons t tokens ih =>
    show a.size (a.absorbs tokens (a.absorb t b)) = _
    rw [ih, a.size_absorb, List.length_cons]
    omega

/-- Some tokens, and a draw if one is asked for. -/
def serve (tokens : List T) (asks : Bool) (b : β) : Option (T × Bool) × β :=
  if asks then (some (a.draw (a.absorbs tokens b)).1, (a.draw (a.absorbs tokens b)).2)
  else (none, a.absorbs tokens b)

/-- About to draw for the `n`-th time. -/
def before (p : P) (prompt : List T) : Nat → β
  | 0 => a.absorbs prompt (a.start p)
  | n + 1 => a.absorb (a.draw (before p prompt n)).1.1 (a.draw (before p prompt n)).2

/-- The `n`-th of the stream. -/
def answer (p : P) (prompt : List T) (n : Nat) : T × Bool := (a.draw (a.before p prompt n)).1

def after (p : P) (prompt : List T) (n : Nat) : β := (a.draw (a.before p prompt n)).2

theorem size_before (p : P) (prompt : List T) (n : Nat) : a.size (a.before p prompt n) = prompt.length + n := by
  induction n with
  | zero =>
    rw [before, a.size_absorbs, a.size_start]
    omega
  | succ n ih =>
    rw [before, a.size_absorb, a.size_draw, ih]
    omega

theorem size_after (p : P) (prompt : List T) (n : Nat) : a.size (a.after p prompt n) = prompt.length + n := by
  rw [after, a.size_draw, size_before]

/-- The rest of the prompt, and the first draw. -/
theorem serve_rest {p : P} {prompt done rest : List T} (whole : done ++ rest = prompt) :
    a.serve rest true (a.absorbs done (a.start p)) = (some (a.answer p prompt 0), a.after p prompt 0) := by
  subst whole
  simp only [serve, if_true, ← absorbs_append]
  rfl

/-- What was drawn comes back, and the next draw. -/
theorem serve_next (p : P) (prompt : List T) (n : Nat) :
    a.serve [(a.answer p prompt n).1] true (a.after p prompt n) =
      (some (a.answer p prompt (n + 1)), a.after p prompt (n + 1)) := rfl

end Source
