import Mathlib.Data.List.Infix

/-! # Event streams

Payloads sent as a text of lines: each stands on a line of its own behind a field name, and a blank
line ends it.  The reader takes the text letter by letter, as it comes in, and so whatever it has made
out of a part of the text is part of what it makes out of the whole.
-/

namespace EventStream

structure Format (α : Type) where
  newline : α
  space : α
  field : List α
  newline_not_mem : newline ∉ field
  space_ne_newline : newline ≠ space

/-- A reader in the middle of a stream: the line it is on, the data of the event it is on, and the
    events it has seen the end of. -/
structure Reader (α : Type) where
  line : List α := []
  data : Option (List α) := none
  events : List (List α) := []

namespace Format

variable {α : Type} (format : Format α)

def frame (payload : List α) : List α :=
  format.field ++ format.space :: payload ++ [format.newline, format.newline]

variable [DecidableEq α]

/-- What a line says after the name of the field; one blank in front of it does not count. -/
def value (line : List α) : List α :=
  match line.drop format.field.length with
  | a :: rest => if a = format.space then rest else a :: rest
  | [] => []

/-- A blank line ends an event.  The lines of data of one event are put together again, and lines of
    other fields are ignored. -/
def endLine (reader : Reader α) : Reader α :=
  if reader.line = [] then { events := reader.events ++ reader.data.toList }
  else if format.field.isPrefixOf reader.line then
    { reader with
      line := []
      data := some (match reader.data with
        | some data => data ++ format.newline :: format.value reader.line
        | none => format.value reader.line) }
  else { reader with line := [] }

def read (reader : Reader α) (a : α) : Reader α :=
  if a = format.newline then format.endLine reader else { reader with line := reader.line ++ [a] }

def reads (reader : Reader α) (text : List α) : Reader α := text.foldl format.read reader

/-- The events a text has shown so far. -/
def decode (text : List α) : List (List α) := (format.reads {} text).events

variable {format} {reader : Reader α} {payload text : List α}

theorem reads_append (text more : List α) :
    format.reads reader (text ++ more) = format.reads (format.reads reader text) more := List.foldl_append

theorem read_events (a : α) : reader.events <+: (format.read reader a).events := by
  unfold read endLine
  split
  · split
    · exact List.prefix_append _ _
    · split <;> exact List.prefix_rfl
  · exact List.prefix_rfl

theorem reads_events (text : List α) : reader.events <+: (format.reads reader text).events := by
  induction text generalizing reader with
  | nil => exact List.prefix_rfl
  | cons a text ih => exact (read_events a).trans ih

/-- What has been seen stays seen. -/
theorem decode_prefix {text' : List α} (part : text <+: text') : format.decode text <+: format.decode text' := by
  obtain ⟨more, rfl⟩ := part
  unfold decode
  rw [reads_append]
  exact reads_events more

/-- Inside a line nothing happens. -/
theorem reads_line (inside : format.newline ∉ text) :
    format.reads reader text = { reader with line := reader.line ++ text } := by
  induction text generalizing reader with
  | nil => simp [reads]
  | cons a text ih =>
    rw [List.mem_cons, not_or] at inside
    have one : format.read reader a = { reader with line := reader.line ++ [a] } := if_neg (Ne.symm inside.1)
    calc format.reads reader (a :: text) = format.reads (format.read reader a) text := rfl
      _ = { reader with line := reader.line ++ a :: text } := by rw [one, ih inside.2]; simp

theorem value_frame (payload : List α) :
    format.value (format.field ++ format.space :: payload) = payload := by
  simp [value]

theorem reads_frame (inside : format.newline ∉ payload) (events : List (List α)) :
    format.reads { events := events } (format.frame payload) = { events := events ++ [payload] } := by
  have line : format.newline ∉ format.field ++ format.space :: payload := by
    simp [format.newline_not_mem, format.space_ne_newline, inside]
  have filled : format.field ++ format.space :: payload ≠ [] := by simp
  have named : format.field.isPrefixOf (format.field ++ format.space :: payload) = true :=
    List.isPrefixOf_iff_prefix.mpr (List.prefix_append _ _)
  rw [frame, reads_append, reads_line line]
  -- the first line end takes in the data, the second one ends the event
  simp only [reads, List.foldl_cons, List.foldl_nil, read, if_true, endLine, List.nil_append, if_neg filled,
    named, value_frame, Option.toList_some]

/-- Payloads that stand on one line each come out as they went in. -/
theorem decode_frames {payloads : List (List α)} (inside : ∀ p ∈ payloads, format.newline ∉ p) :
    format.decode (payloads.flatMap format.frame) = payloads := by
  have all : ∀ events, format.reads { events := events } (payloads.flatMap format.frame) =
      { events := events ++ payloads } := by
    induction payloads with
    | nil => simp [reads]
    | cons payload payloads ih =>
      intro events
      rw [List.flatMap_cons, reads_append, reads_frame (inside payload List.mem_cons_self),
        ih fun p member => inside p (List.mem_cons_of_mem _ member)]
      simp
  unfold decode
  rw [all]
  rfl

/-- A stream that breaks off anywhere shows the first of the payloads. -/
theorem decode_of_cut {payloads : List (List α)} (inside : ∀ p ∈ payloads, format.newline ∉ p)
    (cut : text <+: payloads.flatMap format.frame) : format.decode text <+: payloads := by
  have shown : format.decode text <+: format.decode (payloads.flatMap format.frame) := decode_prefix cut
  rwa [decode_frames inside] at shown

end Format

end EventStream
