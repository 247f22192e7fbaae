import SlotText.Diagnostic.Basic
import SlotText.Numeral

/-!
# The lines of a report

A report has a line for the code and the message, one for the place, one for the path if references
were followed, and one for the advice. Texts that come from outside can be cut to a length, with
three points in place of what is left out. The lines are those of numbers of any length; whether
these can be written is looked at where a report is written.
-/
namespace SlotText

inductive Layout where
  | detailed
  | brief
  | json
  deriving DecidableEq, Repr

def Layout.label : Layout → Text
  | detailed => "rust".toList
  | brief => "simple".toList
  | json => "json".toList

/-- How reports are written. A negative `limit` counts from the end of a text. -/
structure Reporter where
  layout : Layout := .detailed
  truncating : Bool := false
  colored : Bool := false
  limit : Int := 100
  deriving DecidableEq, Repr

namespace Reporter

/-- A text, cut if it is longer than the limit. -/
def trimmed (r : Reporter) (s : Text) : Text :=
  if r.truncating ∧ r.limit < s.length then s.sliceTo r.limit ++ "...".toList else s

/-- Any severity but a warning counts as an error. -/
def severity (r : Reporter) (d : Diagnostic) : Text :=
  let warning := d.severity = "warning".toList
  let word := if warning then "warning".toList else "error".toList
  if r.colored then
    (if warning then "\x1b[1;33m".toList else "\x1b[1;31m".toList) ++ word ++ "\x1b[0m".toList
  else word

def pathText (path : List Int) : Text :=
  List.intercalate " -> ".toList (path.map Numeral.ofInt)

def headLine (r : Reporter) (d : Diagnostic) : Text :=
  r.severity d ++ '[' :: d.code.label ++ "]: ".toList ++ r.trimmed d.message

def slotLine? (d : Diagnostic) : Option Text :=
  match d.slot, d.offset with
  | some slot, some offset =>
    some ("  --> slot ".toList ++ Numeral.ofNat slot ++ ", offset ".toList ++ Numeral.ofNat offset)
  | some slot, none => some ("  --> slot ".toList ++ Numeral.ofNat slot)
  | none, _ => none

def pathLine? (d : Diagnostic) : Option Text :=
  match d.path with
  | some (i :: path) => some ("  = path: ".toList ++ pathText (i :: path))
  | _ => none

def hintLine? (r : Reporter) (d : Diagnostic) : Option Text :=
  match d.hint with
  | some (c :: hint) => some ("  = help: ".toList ++ r.trimmed (c :: hint))
  | _ => none

/-- The lines of a detailed report. -/
def lines (r : Reporter) (d : Diagnostic) : List Text :=
  r.headLine d :: ((slotLine? d).toList ++ (pathLine? d).toList ++ (r.hintLine? d).toList)

/-- The lines of a detailed report, one below the other. -/
def text (r : Reporter) (d : Diagnostic) : Text := List.intercalate ['\n'] (r.lines d)

end Reporter

/-- A fault of some category, with a diagnostic or a plain message. The message of a fault with a
diagnostic is the detailed report without colours or cuts. -/
structure Fault where
  category : Category
  content : Text ⊕ Diagnostic
  deriving DecidableEq, Repr

namespace Fault

def ofDiagnostic (d : Diagnostic) : Fault := ⟨d.code.category, .inr d⟩

def diagnostic? (f : Fault) : Option Diagnostic :=
  match f.content with
  | .inl _ => none
  | .inr d => some d

def message (f : Fault) : Text :=
  match f.content with
  | .inl s => s
  | .inr d => ({} : Reporter).text d

def slot (f : Fault) : Option Nat := f.diagnostic?.bind (·.slot)

def offset (f : Fault) : Option Nat := f.diagnostic?.bind (·.offset)

end Fault

end SlotText
