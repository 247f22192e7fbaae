import SlotText.Diagnostic.Output
import SlotText.Proofs.Json.Written

/-!
# Decoding reports

A JSON report is read as an object. It has a member for each field that the diagnostic has: the
code by its name and by its number, the message and the severity always, a slot and an offset
where they are known, zero included, and a path and advice where there is something in them. A
reporter that truncates cuts the message and the advice and nothing else.

So a report that is not truncated gives the diagnostic back, except that a path or advice with
nothing in it is not told from none. Only a number with too many digits stands in the way: then
there is no report.
-/
namespace SlotText

/-- The first characters of a text, with three points in place of the others if there are any. -/
def Text.shortened (m : Nat) (s : Text) : Text :=
  if m < s.length then s.take m ++ "...".toList else s

section

variable {α β : Type} {fields fields' : List (α × Option β)} {name : α} {x : β}

/-- The fields that have a value. -/
def present (fields : List (α × Option β)) : List (α × β) :=
  fields.filterMap fun field => field.2.map (field.1, ·)

end

namespace Diagnostic

/-- The diagnostic with nothing in place of an empty path and of empty advice. -/
def stated (d : Diagnostic) : Diagnostic :=
  { d with path := d.path.filter (· ≠ []), hint := d.hint.filter (· ≠ []) }

/-- The numbers that are not the same for all diagnostics with its code. -/
def numbers (d : Diagnostic) : List Int :=
  d.slot.toList.map Int.ofNat ++ d.offset.toList.map Int.ofNat ++ d.path.getD []

/-- What a report has to say about a diagnostic, by the names of the members. -/
def fields (shown : Text → Text) (d : Diagnostic) : List (Text × Option JsonValue) :=
  [("code".toList, some (.text d.code.label)),
    ("code_value".toList, some (.ofInt d.code.number)),
    ("message".toList, some (.text (shown d.message))),
    ("severity".toList, some (.text d.severity)),
    ("slot_index".toList, d.slot.map fun slot : Nat => .ofInt slot),
    ("offset".toList, d.offset.map fun offset : Nat => .ofInt offset),
    ("resolution_path".toList, d.stated.path.map .ofInts),
    ("hint".toList, d.stated.hint.map fun hint => .text (shown hint))]

variable {d d' : Diagnostic}

end Diagnostic

namespace Reporter

variable {r : Reporter} {d : Diagnostic}

/-- What the reporter shows of a text that comes from outside. -/
def shown (r : Reporter) : Text → Text :=
  if r.truncating then Text.shortened r.limit.toNat else id

end Reporter

end SlotText
