import Mathlib.Data.List.Nodup
import MicroVllm.Types

/-! # The body of a request

`parse_generate_request` reads a JSON body field by field.  Each optional field is checked for the
type of its value and then narrowed to the width of the member it goes to.  The check does not look at
the width: an integer literal up to `2 ^ 64 - 1` passes for a member of 32 bits.
-/

namespace MicroVllm

/-- A value as the JSON library stores it.  An integer literal is unsigned if it is not negative
    and fits 64 bits, signed if it is negative and does, and a double otherwise, like every literal
    with a fraction or an exponent; doubles are carried as their bit patterns.  No key of an object
    occurs twice. -/
inductive Json where
  | null
  | boolean (b : Bool)
  | numberUnsigned (n : UInt64)
  | numberInteger (n : Int64)
  | numberFloat (bits : UInt64)
  | string (text : Text)
  | array (elems : List Json)
  | object (fields : List (String × Json))

namespace Json

abbrev Fields := List (String × Json)

def find? (fields : Fields) (key : String) : Option Json := (fields.find? (·.1 = key)).map Prod.snd

/-- The number an integer literal stands for. -/
def integer? : Json → Option Int
  | numberUnsigned n => some n.toNat
  | numberInteger n => some n.toInt
  | _ => none

/-- `is_number_unsigned` and then `get<std::uint32_t>`. -/
def getUint32 : Json → Option UInt32
  | numberUnsigned n => some n.toUInt32
  | _ => none

/-- `is_number_integer` and then `get<std::int32_t>`; unsigned values are integers too. -/
def getInt32 : Json → Option Int32
  | numberUnsigned n => some n.toUInt32.toInt32
  | numberInteger n => some n.toInt32
  | _ => none

/-- `is_number` and then `get<float>`. -/
def getFloat : Json → Option UInt32
  | numberUnsigned n => some n.toFloat32.toBits
  | numberInteger n => some n.toFloat32.toBits
  | numberFloat bits => some (Float.ofBits bits).toFloat32.toBits
  | _ => none

end Json

/-- What `json::parse` throws: the exception the caller catches, or another one of the library, such
    as the one for a number that is too large for a double. -/
inductive JsonException where
  | parseError (what : String)
  | other (what : String)
deriving DecidableEq, Repr

inductive Thrown where
  | badRequest (message : String)
  | json (e : JsonException)
deriving DecidableEq, Repr

/-- The bytes of a string literal. -/
def bytes (s : String) : Text := s.toUTF8.data.toList

/-- `json::parse` as far as these texts go: it knows the value of each of them. -/
def Json.reader (texts : List (Text × Json)) (body : Text) : Except JsonException Json :=
  match texts.find? (·.1 = body) with
  | some known => .ok known.2
  | none => .error (.parseError "not among the texts")

theorem Json.reader_of_mem {texts : List (Text × Json)} (nodup : (texts.map Prod.fst).Nodup) {body : Text}
    {value : Json} (member : (body, value) ∈ texts) : reader texts body = .ok value := by
  unfold reader
  split
  · rename_i known found
    have same : known.1 = body := by simpa using List.find?_some found
    rw [List.inj_on_of_nodup_map nodup (List.mem_of_find?_eq_some found) member same]
  · rename_i missed
    have other := List.find?_eq_none.mp missed _ member
    simp at other

namespace HttpApi

open Json

/-- A field that may be left out. -/
def optional {α : Type} (fields : Fields) (key : String) (get : Json → Option α) (message : String)
    (default : α) : Except Thrown α :=
  match find? fields key with
  | none => .ok default
  | some value =>
    -- a field that is there is never ignored: it is read or refused
    match get value with
    | some a => .ok a
    | none => .error (.badRequest message)

/-- The loop over the elements of a stop array. -/
def stopStrings : List Json → Except Thrown (List Text)
  | [] => .ok []
  | .string text :: elems => do return text :: (← stopStrings elems)
  | _ :: _ => .error (.badRequest "\"stop\" array must contain only strings")

/-- A single stop string or an array of them. -/
def stopList : Json → Except Thrown (List Text)
  | .string text => .ok [text]
  | .array elems => stopStrings elems
  | _ => .error (.badRequest "\"stop\" must be a string or an array of strings")

def optionalStop (fields : Fields) (default : List Text) : Except Thrown (List Text) :=
  match find? fields "stop" with
  | some value => stopList value
  | none => .ok default

def parseObject (fields : Fields) : Except Thrown RequestSpec := do
  let prompt ← match find? fields "prompt" with
    | some (.string text) => pure text
    | _ => throw (.badRequest "\"prompt\" is required and must be a string")
  -- the members keep their defaults where the body has no field
  let spec : RequestSpec := { prompt := prompt }
  let maxTokens ← optional fields "max_tokens" getUint32
    "\"max_tokens\" must be a non-negative integer" spec.maxTokens
  let temperature ← optional fields "temperature" getFloat
    "\"temperature\" must be a number" spec.sampling.temperature
  let topP ← optional fields "top_p" getFloat "\"top_p\" must be a number" spec.sampling.topP
  let topK ← optional fields "top_k" getInt32 "\"top_k\" must be an integer" spec.sampling.topK
  let seed ← optional fields "seed" getUint32
    "\"seed\" must be a non-negative integer" spec.sampling.seed
  let stop ← optionalStop fields spec.stop
  return { spec with maxTokens, stop, sampling := { spec.sampling with temperature, topP, topK, seed } }

def parseGenerateRequest (parse : Text → Except JsonException Json) (body : Text) :
    Except Thrown RequestSpec :=
  match parse body with
  | .ok (.object fields) => parseObject fields
  | .ok _ => .error (.badRequest "request body must be a JSON object")
  | .error (.parseError what) => .error (.badRequest ("invalid JSON: " ++ what))
  -- only `parse_error` is caught
  | .error e => .error (.json e)

/-! ## What a field gives -/

/-- The values under this key, if there are any, have the type that is asked for. -/
def Typed {α : Type} (fields : Fields) (key : String) (get : Json → Option α) : Prop :=
  ∀ value, find? fields key = some value → (get value).isSome = true

/-- The integer under this key is in `[lo, hi)`. -/
def Within (fields : Fields) (key : String) (lo hi : Int) : Prop :=
  ∀ value, find? fields key = some value → ∀ i, value.integer? = some i → lo ≤ i ∧ i < hi

/-- `i` is the integer under this key, or the default if there is none. -/
def Gives (fields : Fields) (key : String) (default i : Int) : Prop :=
  match find? fields key with
  | none => i = default
  | some value => value.integer? = some i

/-- The value is an array of those strings, in this order, or the only one of them. -/
def IsStop (value : Json) (stop : List Text) : Prop :=
  value = .array (stop.map .string) ∨ ∃ text, value = .string text ∧ stop = [text]

/-- Those are the stop strings of the body. -/
def Stops (fields : Fields) (stop : List Text) : Prop :=
  match find? fields "stop" with
  | none => stop = []
  | some value => IsStop value stop

/-- Every optional field of the body has the type that is asked for. -/
structure WellTyped (fields : Fields) : Prop where
  maxTokens : Typed fields "max_tokens" getUint32
  temperature : Typed fields "temperature" getFloat
  topP : Typed fields "top_p" getFloat
  topK : Typed fields "top_k" getInt32
  seed : Typed fields "seed" getUint32
  stop : ∀ value, find? fields "stop" = some value → ∃ stop, IsStop value stop

/-- The integers of the specification are those of the body. -/
structure Exact (fields : Fields) (spec : RequestSpec) : Prop where
  maxTokens : Gives fields "max_tokens" 128 spec.maxTokens.toNat
  topK : Gives fields "top_k" 40 spec.sampling.topK.toInt
  seed : Gives fields "seed" 0 spec.sampling.seed.toNat

/-- The integers of the body fit the members they go to. -/
structure Fits (fields : Fields) : Prop where
  maxTokens : Within fields "max_tokens" 0 (2 ^ 32)
  topK : Within fields "top_k" (-2 ^ 31) (2 ^ 31)
  seed : Within fields "seed" 0 (2 ^ 32)

/-- A check of the body: refused as a bad request exactly if something has the wrong type, and otherwise
    passed with a good result. -/
def Settled {α : Type} (typed : Prop) (read : Except Thrown α) (good : α → Prop) : Prop :=
  (¬ typed ∧ ∃ message, read = .error (.badRequest message)) ∨ (typed ∧ ∃ a, read = .ok a ∧ good a)

/-- Two checks, one after the other. -/
theorem Settled.bind {α β : Type} {typed typed' : Prop} {read : Except Thrown α} {good : α → Prop}
    {next : α → Except Thrown β} {good' : β → Prop} (first : Settled typed read good)
    (second : ∀ a, good a → Settled typed' (next a) good') :
    Settled (typed ∧ typed') (read >>= next) good' := by
  rcases first with ⟨other, message, refused⟩ | ⟨fine, a, passed, holds⟩
  · exact .inl ⟨fun both => other both.1, message, by rw [refused]; rfl⟩
  · have through : (read >>= next) = next a := by
      rw [passed]
      rfl
    rw [through]
    rcases second a holds with ⟨other, refused⟩ | ⟨fine', result⟩
    · exact .inl ⟨fun both => other both.2, refused⟩
    · exact .inr ⟨⟨fine, fine'⟩, result⟩

section Fields

variable {α : Type} {fields : Fields} {key message : String} {get : Json → Option α} {default : α}

/-- A field of another type is refused; any other is read or takes its default. -/
theorem settled_optional : Settled (Typed fields key get) (optional fields key get message default)
    (optional fields key get message default = .ok ·) := by
  simp only [optional, Typed, Settled]
  cases found : find? fields key with
  | none => exact .inr ⟨by simp, default, rfl, rfl⟩
  | some value =>
    cases read : get value with
    | none => exact .inl ⟨by simp [read], message, by simp only [read]⟩
    | some a => exact .inr ⟨by simp [read], a, by simp only [read], by simp only [read]⟩

/-- A field that is read is the number in the body exactly if that is in the range which narrowing
    leaves alone. -/
theorem optional_gives {a : α} {number : α → Int} {lo hi : Int}
    (narrows : ∀ value a, get value = some a → (value.integer? = some (number a) ↔
      ∀ i, value.integer? = some i → lo ≤ i ∧ i < hi))
    (read : optional fields key get message default = .ok a) :
    Gives fields key (number default) (number a) ↔ Within fields key lo hi := by
  simp only [optional] at read
  simp only [Gives, Within]
  cases found : find? fields key with
  | none =>
    rw [found] at read
    cases read
    simp
  | some value =>
    rw [found] at read
    cases got : get value with
    | none => simp [got] at read
    | some b =>
      simp only [got, Except.ok.injEq] at read
      subst read
      simp only [Option.some.injEq, forall_eq']
      exact narrows value b got

end Fields

theorem getUint32_narrows (value : Json) (a : UInt32) (read : value.getUint32 = some a) :
    value.integer? = some (a.toNat : Int) ↔ ∀ i, value.integer? = some i → 0 ≤ i ∧ i < 2 ^ 32 := by
  cases value with
  | numberUnsigned n =>
    simp only [getUint32, Option.some.injEq] at read
    subst read
    simp only [integer?, Option.some.injEq, forall_eq', UInt64.toNat_toUInt32]
    omega
  | _ => cases read

theorem getInt32_narrows (value : Json) (a : Int32) (read : value.getInt32 = some a) :
    value.integer? = some a.toInt ↔ ∀ i, value.integer? = some i → -2 ^ 31 ≤ i ∧ i < 2 ^ 31 := by
  cases value with
  | numberUnsigned n =>
    simp only [getInt32, Option.some.injEq] at read
    subst read
    have narrowed : n.toUInt32.toInt32.toInt = Int.bmod (n.toNat % 2 ^ 32 : Nat) (2 ^ 32) := by
      rw [← UInt64.toNat_toUInt32]
      exact BitVec.toInt_eq_toNat_bmod _
    simp only [integer?, Option.some.injEq, forall_eq', narrowed, Int.bmod_def]
    split <;> omega
  | numberInteger n =>
    simp only [getInt32, Option.some.injEq] at read
    subst read
    simp only [integer?, Option.some.injEq, forall_eq', Int64.toInt_toInt32, Int.bmod_def]
    split <;> omega
  | _ => cases read

theorem settled_stopStrings (elems : List Json) :
    Settled (∃ stop : List Text, elems = stop.map .string) (stopStrings elems) (elems = ·.map .string) := by
  induction elems with
  | nil => exact .inr ⟨⟨[], rfl⟩, [], rfl, rfl⟩
  | cons elem elems ih =>
    cases elem with
    | string text =>
      rcases ih with ⟨other, message, refused⟩ | ⟨_, stop, read, same⟩
      · refine .inl ⟨?_, message, by rw [stopStrings, refused]; rfl⟩
        rintro ⟨stop, all⟩
        cases stop with
        | nil => cases all
        | cons first stop => exact other ⟨stop, (List.cons.inj all).2⟩
      · have longer : Json.string text :: elems = (text :: stop).map .string := by
          rw [same, List.map_cons]
        exact .inr ⟨⟨_, longer⟩, text :: stop, by rw [stopStrings, read]; rfl, longer⟩
    | _ =>
      refine .inl ⟨?_, _, rfl⟩
      rintro ⟨stop, all⟩
      cases stop <;> simp at all

theorem settled_stopList (value : Json) :
    Settled (∃ stop, IsStop value stop) (stopList value) (IsStop value) := by
  cases value with
  | string text => exact .inr ⟨⟨[text], .inr ⟨text, rfl, rfl⟩⟩, [text], rfl, .inr ⟨text, rfl, rfl⟩⟩
  | array elems =>
    rcases settled_stopStrings elems with ⟨other, refused⟩ | ⟨_, stop, read, same⟩
    · refine .inl ⟨?_, refused⟩
      rintro ⟨stop, all | ⟨text, single, _⟩⟩
      · exact other ⟨stop, Json.array.inj all⟩
      · cases single
    · have array : IsStop (.array elems) stop := .inl (by rw [same])
      exact .inr ⟨⟨stop, array⟩, stop, read, array⟩
  | _ => exact .inl ⟨by rintro ⟨stop, all | ⟨text, single, _⟩⟩ <;> contradiction, _, rfl⟩

theorem settled_optionalStop (fields : Fields) :
    Settled (∀ value, find? fields "stop" = some value → ∃ stop, IsStop value stop)
      (optionalStop fields []) (Stops fields) := by
  rw [optionalStop]
  cases found : find? fields "stop" with
  | none => exact .inr ⟨by simp, [], rfl, by rw [Stops, found]⟩
  | some value =>
    have listed : Stops fields = IsStop value := by
      funext stop
      rw [Stops, found]
    simp only [Option.some.injEq, forall_eq', listed]
    exact settled_stopList value

theorem settled_object {fields : Fields} {prompt : Text}
    (given : find? fields "prompt" = some (.string prompt)) :
    Settled (WellTyped fields) (parseObject fields) fun spec =>
      spec.prompt = prompt ∧ Stops fields spec.stop ∧ (Exact fields spec ↔ Fits fields) := by
  have typed : WellTyped fields ↔ Typed fields "max_tokens" getUint32 ∧
      Typed fields "temperature" getFloat ∧ Typed fields "top_p" getFloat ∧
      Typed fields "top_k" getInt32 ∧ Typed fields "seed" getUint32 ∧
      (∀ value, find? fields "stop" = some value → ∃ stop, IsStop value stop) ∧ True :=
    ⟨fun t => ⟨t.maxTokens, t.temperature, t.topP, t.topK, t.seed, t.stop, trivial⟩,
      fun ⟨maxTokens, temperature, topP, topK, seed, stop, _⟩ =>
        ⟨maxTokens, temperature, topP, topK, seed, stop⟩⟩
  rw [typed]
  simp only [parseObject, given, pure_bind]
  -- one field after the other, in the order of the source
  refine settled_optional.bind fun maxTokens maxTokensRead => ?_
  refine settled_optional.bind fun temperature _ => ?_
  refine settled_optional.bind fun topP _ => ?_
  refine settled_optional.bind fun topK topKRead => ?_
  refine settled_optional.bind fun seed seedRead => ?_
  refine (settled_optionalStop fields).bind fun stop stops => ?_
  refine .inr ⟨trivial, _, rfl, rfl, stops, ?_⟩
  have maxTokensGives := optional_gives getUint32_narrows maxTokensRead
  have topKGives := optional_gives getInt32_narrows topKRead
  have seedGives := optional_gives getUint32_narrows seedRead
  constructor
  · exact fun exact => ⟨maxTokensGives.mp exact.maxTokens, topKGives.mp exact.topK, seedGives.mp exact.seed⟩
  · exact fun fits => ⟨maxTokensGives.mpr fits.maxTokens, topKGives.mpr fits.topK, seedGives.mpr fits.seed⟩

/-- A body that is an object with a prompt is refused exactly if one of its optional fields has the
    wrong type.  Otherwise the specification has the prompt and the stop strings of the body,
    and it has the integers of the body exactly if they fit their members. -/
theorem request_numbers (parse : Text → Except JsonException Json) (body : Text) (fields : Fields)
    (prompt : Text) (parsed : parse body = .ok (.object fields))
    (given : find? fields "prompt" = some (.string prompt)) :
    (¬ WellTyped fields ∧ ∃ message, parseGenerateRequest parse body = .error (.badRequest message)) ∨
      (WellTyped fields ∧ ∃ spec, parseGenerateRequest parse body = .ok spec ∧ spec.prompt = prompt ∧
        Stops fields spec.stop ∧ (Exact fields spec ↔ Fits fields)) := by
  rw [parseGenerateRequest, parsed]
  exact settled_object given

/-- A body with a prompt and all the integers. -/
def budgetedText (maxTokens : String) : Text :=
  bytes ("\x7b\"prompt\": \"hi\", \"max_tokens\": " ++ maxTokens ++
    ", \"top_k\": -1, \"seed\": 7, \"stop\": [\"\\n\", \"E\"]\x7d")

/-- The same as the library stores it, the keys in order. -/
def budgeted (maxTokens : UInt64) : Fields :=
  [("max_tokens", .numberUnsigned maxTokens), ("prompt", .string (bytes "hi")), ("seed", .numberUnsigned 7),
    ("stop", .array [.string (bytes "\n"), .string (bytes "E")]), ("top_k", .numberInteger (-1))]

def budgetedTexts : List (Text × Json) :=
  [(budgetedText "42", .object (budgeted 42)), (budgetedText "4294967296", .object (budgeted 4294967296))]

theorem budgetedTexts_nodup : (budgetedTexts.map Prod.fst).Nodup := by decide +kernel

/-- Integers that fit are taken as they are. -/
theorem request_numbers_fitting :
    ∃ spec, parseGenerateRequest (reader budgetedTexts) (budgetedText "42") = .ok spec ∧
      spec.stop = [bytes "\n", bytes "E"] ∧ Fits (budgeted 42) ∧ Exact (budgeted 42) spec := by
  have fits : Fits (budgeted 42) := by
    constructor <;> rintro value found i number <;> cases found <;> cases number <;> decide
  have parsed : reader budgetedTexts (budgetedText "42") = .ok (.object (budgeted 42)) :=
    reader_of_mem budgetedTexts_nodup (by simp [budgetedTexts])
  rcases request_numbers (reader budgetedTexts) (budgetedText "42") (budgeted 42) (bytes "hi") parsed rfl with
    ⟨_, message, refused⟩ | ⟨_, spec, taken, _, stops, exact⟩
  · rw [parseGenerateRequest, parsed] at refused
    cases refused
  · refine ⟨spec, taken, ?_, fits, exact.mpr fits⟩
    rw [parseGenerateRequest, parsed] at taken
    cases taken
    rfl

/-- A budget of `2 ^ 32` tokens is taken for one of none. -/
theorem request_numbers_narrowed :
    ∃ spec, parseGenerateRequest (reader budgetedTexts) (budgetedText "4294967296") = .ok spec ∧
      spec.maxTokens = 0 ∧ ¬ Exact (budgeted 4294967296) spec := by
  have parsed : reader budgetedTexts (budgetedText "4294967296") = .ok (.object (budgeted 4294967296)) :=
    reader_of_mem budgetedTexts_nodup (by simp [budgetedTexts])
  rw [parseGenerateRequest, parsed]
  refine ⟨_, rfl, rfl, ?_⟩
  intro exact
  have given : some (4294967296 : Int) = some 0 := exact.maxTokens
  cases given

end HttpApi

end MicroVllm
