import SlotText.Text.Json

/-!
# Reports

The written form of a diagnostic: in several lines with a place and advice, in one line, or as a
JSON object for other tools. All numbers are written in base ten, and there is no report if one of
them is too long for that. The brief report has none.
-/
namespace SlotText

namespace Reporter

/-- The numbers in the lines of a detailed report. No line tells an offset without a slot. -/
def lineNumbers (d : Diagnostic) : List Int :=
  (match d.slot, d.offset with
    | some slot, some offset => [(slot : Int), (offset : Int)]
    | some slot, none => [(slot : Int)]
    | none, _ => []) ++ d.path.getD []

/-- The members of a JSON report. Absent and empty fields are left out. -/
def members (r : Reporter) (d : Diagnostic) : List (Text × JsonItem) :=
  [("code".toList, .text d.code.label),
    ("code_value".toList, .number d.code.number),
    ("message".toList, .text (r.trimmed d.message)),
    ("severity".toList, .text d.severity)] ++
  (match d.slot with
    | some slot => [("slot_index".toList, .number slot)]
    | none => []) ++
  (match d.offset with
    | some offset => [("offset".toList, .number offset)]
    | none => []) ++
  (match d.path with
    | some (i :: path) => [("resolution_path".toList, .numbers (i :: path))]
    | _ => []) ++
  (match d.hint with
    | some (c :: hint) => [("hint".toList, .text (r.trimmed (c :: hint)))]
    | _ => [])

/-- The report of one diagnostic. -/
def write (r : Reporter) (d : Diagnostic) : Outcome Text :=
  match r.layout with
  | .detailed => do
    let _ ← (lineNumbers d).mapM Numeral.write
    return r.text d
  | .brief => .ok (d.code.label ++ ": ".toList ++ r.trimmed d.message)
  | .json => JsonItem.writeObject (r.members d)

/-- The reports of several diagnostics with a blank line between neighbours. -/
def writeAll (r : Reporter) (ds : List Diagnostic) : Outcome Text :=
  (ds.mapM r.write).map (List.intercalate ['\n', '\n'])

end Reporter

/-- The detailed report without colours or cuts. -/
def Diagnostic.report (d : Diagnostic) : Outcome Text := ({} : Reporter).write d

/-- A fault that is made from outside. Its message is written at once. -/
def Fault.of (category : Category) (content : Text ⊕ Diagnostic) : Outcome Fault := do
  if let .inr d := content then
    let _ ← d.report
  return ⟨category, content⟩

end SlotText
