import Mathlib.Algebra.Order.Ring.Nat
import Mathlib.Data.List.Basic
import Mathlib.Tactic.Common

/-! # Vocabulary of the server

Tokens, the request a client sends and the result it gets back.  Slot ids (`SeqId`),
block ids (`BlockId`) and request ids are plain `Nat`: a slot id stays below the
engine's sequence capacity, so the 32 bits of the source's type never matter.
Unbounded counts (`std::size_t`) are `Nat` too; a value the source narrows to 32 bits
goes through `toUint32` or `toPos` at the place of the cast, and a position (`Pos`) is
an `Int`.
-/

namespace MicroVllm

abbrev Token := Int32

/-- A `std::string`: bytes, not characters. -/
abbrev Text := List UInt8

/-- `static_cast<std::uint32_t>`, and the result of every 32-bit unsigned sum. -/
def toUint32 (n : Nat) : Nat := n % 2 ^ 32

/-- `static_cast<std::int32_t>`, and the result of every 32-bit signed sum. -/
def toPos (n : Int) : Int := Int.bmod n (2 ^ 32)

theorem toUint32_le (n : Nat) : toUint32 n ≤ n := Nat.mod_le _ _

theorem toUint32_of_lt {n : Nat} (bound : n < 2 ^ 32) : toUint32 n = n := Nat.mod_eq_of_lt bound

theorem toPos_of_lt {n : Nat} (bound : n < 2 ^ 31) : toPos n = n := by
  unfold toPos
  rw [Int.bmod_def, Int.emod_eq_of_lt (by omega) (by omega)]
  rw [if_pos (by omega)]

inductive FinishReason where
  | unset
  | eos
  | maxTokens
  | stopString
  | cancelled
  | error
  | contextOverflow
deriving DecidableEq, Repr

/-- Sampling knobs.  The single-precision numbers are carried as their IEEE-754 bit
    patterns: nothing on this side of the engine computes with them. -/
structure SamplingParams where
  temperature : UInt32 := 0x3F4CCCCD
  topP : UInt32 := 0x3F733333
  topK : Int32 := 40
  repeatPenalty : UInt32 := 0x3F8CCCCD
  seed : UInt32 := 0
deriving DecidableEq, Repr

structure RequestSpec where
  prompt : Text
  stop : List Text := []
  maxTokens : UInt32 := 128
  sampling : SamplingParams := {}
deriving DecidableEq, Repr

structure Usage where
  promptTokens : Nat := 0
  completionTokens : Nat := 0
  cachedPromptTokens : Nat := 0
deriving DecidableEq, Repr

/-- What a client gets back.  `error` is only filled for `error` and
    `contextOverflow`; wall-clock timing is left out. -/
structure GenResult where
  text : Text
  reason : FinishReason
  usage : Usage
  error : String := ""
deriving DecidableEq, Repr

/-- A unit of work.  `sink` says whether the caller supplied a sink of its own: the
    sink, the cancel flag and the promise are named by the request's id. -/
structure Request where
  id : Nat
  spec : RequestSpec
  sink : Bool := false
deriving DecidableEq, Repr

end MicroVllm
