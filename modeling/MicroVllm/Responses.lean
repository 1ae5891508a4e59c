import MicroVllm.HttpApi
import MicroVllm.Lib.EventStream

/-! # The bodies of responses

What the two endpoints answer with: a JSON object, or a stream of them as server-sent events.  The
JSON library is a parameter; what is asked of it is that the values sent here come out of `parse` as
they went into `dump`, and that `dump` does not break lines.
-/

namespace MicroVllm

/-- `to_string`; the enumeration has no other value. -/
def FinishReason.toText : FinishReason → String
  | .unset => "unset"
  | .eos => "eos"
  | .maxTokens => "max_tokens"
  | .stopString => "stop_string"
  | .cancelled => "cancelled"
  | .error => "error"
  | .contextOverflow => "context_overflow"

def Usage.totalTokens (usage : Usage) : Nat := toUint32 (usage.promptTokens + usage.completionTokens)

/-- `json::parse` and `json::dump`.  `dump` throws on a string that is not UTF-8. -/
structure JsonLibrary where
  parse : Text → Except JsonException Json
  dump : Json → Except JsonException Text

/-- The values that come back from the library as they are: strings, numbers that are not negative,
    and objects, whose keys the library keeps in order. -/
inductive Json.Plain : Json → Prop where
  | string (text : Text) : Plain (.string text)
  | unsigned (n : UInt64) : Plain (.numberUnsigned n)
  | object {fields : Json.Fields} (sorted : (fields.map Prod.fst).Pairwise (· < ·))
      (plain : ∀ field ∈ fields, Plain field.2) : Plain (.object fields)

structure JsonLibrary.Lawful (lib : JsonLibrary) : Prop where
  reads : ∀ j body, j.Plain → lib.dump j = .ok body → lib.parse body = .ok j
  oneLine : ∀ j body, lib.dump j = .ok body → 10 ∉ body

namespace HttpApi

def usageJson (usage : Usage) : Json := .object [
  ("completion_tokens", .numberUnsigned (.ofNat usage.completionTokens)),
  ("prompt_tokens", .numberUnsigned (.ofNat usage.promptTokens)),
  ("total_tokens", .numberUnsigned (.ofNat usage.totalTokens))]

def generateJson (text : Text) (reason : FinishReason) (usage : Usage) : Json := .object [
  ("finish_reason", .string (bytes reason.toText)), ("text", .string text), ("usage", usageJson usage)]

def errorJson (message : String) : Json := .object [("error", .string (bytes message))]

def deltaJson (delta : Text) : Json := .object [("text", .string delta)]

def doneJson (reason : FinishReason) (usage : Usage) : Json := .object [
  ("finish_reason", .string (bytes reason.toText)), ("usage", usageJson usage)]

variable (lib : JsonLibrary)

def makeGenerateResponse (text : Text) (reason : FinishReason) (usage : Usage) : Except JsonException Text :=
  lib.dump (generateJson text reason usage)

def makeErrorResponse (message : String) : Except JsonException Text := lib.dump (errorJson message)

def makeStreamDelta (delta : Text) : Except JsonException Text := lib.dump (deltaJson delta)

def makeStreamDone (reason : FinishReason) (usage : Usage) : Except JsonException Text :=
  lib.dump (doneJson reason usage)

/-! ## What comes back -/

theorem plain_usage (usage : Usage) : (usageJson usage).Plain := by
  have sorted : ["completion_tokens", "prompt_tokens", "total_tokens"].Pairwise (· < ·) := by decide
  refine .object sorted ?_
  simp only [List.mem_cons, List.not_mem_nil, or_false, forall_eq_or_imp, forall_eq]
  exact ⟨.unsigned _, .unsigned _, .unsigned _⟩

theorem plain_generate (text : Text) (reason : FinishReason) (usage : Usage) :
    (generateJson text reason usage).Plain := by
  have sorted : ["finish_reason", "text", "usage"].Pairwise (· < ·) := by decide
  refine .object sorted ?_
  simp only [List.mem_cons, List.not_mem_nil, or_false, forall_eq_or_imp, forall_eq]
  exact ⟨.string _, .string _, plain_usage usage⟩

theorem plain_error (message : String) : (errorJson message).Plain := by
  refine .object (by simp) ?_
  simp only [List.mem_cons, List.not_mem_nil, or_false, forall_eq]
  exact .string _

theorem plain_delta (delta : Text) : (deltaJson delta).Plain := by
  refine .object (by simp) ?_
  simp only [List.mem_cons, List.not_mem_nil, or_false, forall_eq]
  exact .string _

theorem plain_done (reason : FinishReason) (usage : Usage) : (doneJson reason usage).Plain := by
  have sorted : ["finish_reason", "usage"].Pairwise (· < ·) := by decide
  refine .object sorted ?_
  simp only [List.mem_cons, List.not_mem_nil, or_false, forall_eq_or_imp, forall_eq]
  exact ⟨.string _, plain_usage usage⟩

end HttpApi

/-! ## A library for examples -/

open HttpApi

/-- Whether two plain values are the same. -/
def Json.same : Json → Json → Bool
  | .string text, .string text' => text = text'
  | .numberUnsigned n, .numberUnsigned n' => n = n'
  | .object fields, .object fields' => sameFields fields fields'
  | _, _ => false
where
  sameFields : Json.Fields → Json.Fields → Bool
    | [], [] => true
    | (key, value) :: fields, (key', value') :: fields' =>
      key = key' && value.same value' && sameFields fields fields'
    | _, _ => false

mutual

theorem Json.eq_of_same {a b : Json} (same : a.same b = true) : a = b := by
  cases a with
  | string text => cases b <;> simp_all [Json.same]
  | numberUnsigned n => cases b <;> simp_all [Json.same]
  | object fields =>
    cases b with
    | object fields' =>
      rw [Json.same] at same
      rw [Json.eq_of_sameFields same]
    | _ => simp [Json.same] at same
  | _ => simp [Json.same] at same

theorem Json.eq_of_sameFields {fields fields' : Json.Fields} (same : Json.same.sameFields fields fields' = true) :
    fields = fields' := by
  cases fields with
  | nil => cases fields' <;> simp_all [Json.same.sameFields]
  | cons field fields =>
    obtain ⟨key, value⟩ := field
    cases fields' with
    | nil => simp [Json.same.sameFields] at same
    | cons field' fields' =>
      obtain ⟨key', value'⟩ := field'
      simp only [Json.same.sameFields, Bool.and_eq_true, decide_eq_true_eq] at same
      rw [same.1.1, Json.eq_of_same same.1.2, Json.eq_of_sameFields same.2]

end

namespace JsonLibrary

/-- A library that knows a few texts and their values. -/
def ofTexts (texts : List (Text × Json)) : JsonLibrary where
  parse := Json.reader texts
  dump value :=
    match texts.find? (·.2.same value) with
    | some known => .ok known.1
    | none => .error (.other "not among the values")

theorem ofTexts_lawful {texts : List (Text × Json)} (nodup : (texts.map Prod.fst).Nodup)
    (oneLine : ∀ known ∈ texts, 10 ∉ known.1) : (ofTexts texts).Lawful := by
  have known : ∀ j body, (ofTexts texts).dump j = .ok body → (body, j) ∈ texts := by
    intro j body dumped
    simp only [ofTexts] at dumped
    split at dumped
    · rename_i known found
      cases dumped
      have same : known.2 = j := Json.eq_of_same (by simpa using List.find?_some found)
      rw [← same]
      exact List.mem_of_find?_eq_some found
    · cases dumped
  exact ⟨fun j body _ dumped => Json.reader_of_mem nodup (known j body dumped),
    fun j body dumped => oneLine _ (known j body dumped)⟩

/-- The counts at the end of what is sent for one token of prompt and four of text. -/
def usageText : String := "\x7b\"completion_tokens\":4,\"prompt_tokens\":1,\"total_tokens\":5\x7d"

def requestText (prompt : String) : Text := bytes ("\x7b\"prompt\":\"" ++ prompt ++ "\",\"max_tokens\":4\x7d")

def requestJson (prompt : String) : Json :=
  .object [("max_tokens", .numberUnsigned 4), ("prompt", .string (bytes prompt))]

def responseText : Text :=
  bytes ("\x7b\"finish_reason\":\"max_tokens\",\"text\":\"aaaa\",\"usage\":" ++ usageText ++ "\x7d")

/-- Two requests, and what is sent in answer to them. -/
def texts : List (Text × Json) := [
  (requestText "a", requestJson "a"),
  (requestText "b", requestJson "b"),
  (responseText, generateJson (bytes "aaaa") .maxTokens { promptTokens := 1, completionTokens := 4 }),
  (bytes "\x7b\"text\":\"a\"\x7d", deltaJson (bytes "a")),
  (bytes ("\x7b\"finish_reason\":\"max_tokens\",\"usage\":" ++ usageText ++ "\x7d"),
    doneJson .maxTokens { promptTokens := 1, completionTokens := 4 }),
  (bytes "\x7b\"error\":\"server at capacity; retry later\"\x7d", errorJson "server at capacity; retry later")]

theorem texts_nodup : (texts.map Prod.fst).Nodup := by decide +kernel

def sample : JsonLibrary := ofTexts texts

theorem sample_lawful : sample.Lawful := ofTexts_lawful texts_nodup (by decide +kernel)

theorem sample_parse {body : Text} {value : Json} (member : (body, value) ∈ texts) :
    sample.parse body = .ok value := Json.reader_of_mem texts_nodup member

theorem sample_request :
    parseGenerateRequest sample.parse (requestText "a") = .ok { prompt := bytes "a", maxTokens := 4 } := by
  rw [parseGenerateRequest, sample_parse (by simp [texts] : (requestText "a", requestJson "a") ∈ texts)]
  rfl

theorem sample_response : sample.parse responseText =
    .ok (generateJson (bytes "aaaa") .maxTokens { promptTokens := 1, completionTokens := 4 }) :=
  sample_parse (by simp [texts])

end JsonLibrary

end MicroVllm
