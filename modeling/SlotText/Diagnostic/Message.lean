import SlotText.Failure

/-!
# The diagnostics of rendering

One function for each code, with its message and its advice. The two about chains of references
differ in their texts only, and so do the two about amounts. The numbers of a message are written in
the order in which they stand there, but a path is written before them all. No diagnostic arises if
one of them is too long to be written. Showing a value can fail as well. The value that a slot has
in place of an amount is shown before the slot is written and is passed in as text; the target of a
reference comes after the slot and is passed in as the outcome of showing it.
-/
namespace SlotText.Diagnostic

/-- No value was supplied for a slot. -/
def missingArgument (slot count : Index) : Outcome Diagnostic := do
  let slotText ← slot.write
  let countText ← count.write
  located
    { code := .missingArgument
      message := "No value supplied for slot ".toList ++ slotText ++
        " (template has ".toList ++ countText ++ " slot(s))".toList
      hint := some
        "A specifier ending without a width or precision takes it from the next slot".toList }
    (some slot.toInt) none

/-- A reference does not hold the index of a slot. -/
def invalidReference (slot : Index) (target : Outcome Text) (count : Index) :
    Outcome Diagnostic := do
  let slotText ← slot.write
  let targetText ← target
  let countText ← count.write
  located
    { code := .invalidReference
      message := "Slot ".toList ++ slotText ++ " refers to ".toList ++ targetText ++
        ", which is not a slot index in range [0, ".toList ++ countText ++ [')']
      hint := some "Back-references take the integer index of another slot".toList }
    (some slot.toInt) none

/-- The slots of a path with arrows between them. -/
def chain (path : List Index) : Outcome Text := do
  let slots ← path.mapM Index.write
  return List.intercalate " -> ".toList slots

/-- A chain of references returns to a slot on it. The message names the slot that the chain begins
at between two texts, and then tells the path. -/
def closedChain (code : Code) (before behind advice : Text) (slot : Index) (path : List Index) :
    Outcome Diagnostic := do
  let chainText ← chain path
  let slotText ← slot.write
  located
    { code
      message := before ++ slotText ++ behind ++ chainText
      hint := some advice
      path := some (path.map Index.toInt) }
    (some slot.toInt) none

/-- A chain of references returns to the slot it began at. -/
def selfReference : Index → List Index → Outcome Diagnostic :=
  closedChain .selfReference "Slot ".toList " refers to itself: ".toList
    "Supply a value instead of a reference for at least one slot in the chain".toList

/-- A chain of references returns to a slot other than its first. -/
def referenceCycle : Index → List Index → Outcome Diagnostic :=
  closedChain .referenceCycle "Reference cycle detected while resolving slot ".toList ": ".toList
    "Break the cycle by removing one of the references".toList

/-- The slot that an amount is taken from holds something else. -/
def invalidAmount (code : Code) (opening advice : Text) (slot : Index) (value : Text) :
    Outcome Diagnostic := do
  let slotText ← slot.write
  located
    { code
      message := opening ++ value ++ " in slot ".toList ++ slotText ++
        " (must be a non-negative integer)".toList
      hint := some advice }
    (some slot.toInt) none

def invalidWidth : Index → Text → Outcome Diagnostic :=
  invalidAmount .invalidWidth "Invalid width ".toList
    "Write the width inline or pass an int in the following slot".toList

def invalidPrecision : Index → Text → Outcome Diagnostic :=
  invalidAmount .invalidPrecision "Invalid precision ".toList
    "Write the precision inline after '.' or pass an int in the following slot".toList

/-- A specifier goes on with something that cannot continue it. -/
def malformedSpecifier (slot : Index) (offset : Int) (found : Text) : Outcome Diagnostic := do
  let slotText ← slot.write
  located
    { code := .malformedSpecifier
      message := "Unexpected character ".toList ++ found ++
        " in format specifier of slot ".toList ++ slotText
      hint := some ("End the specifier with whitespace, ';' or the end of the literal; ".toList ++
        "write '::' for a literal ':'".toList) }
    (some slot.toInt) (some offset)

end SlotText.Diagnostic

namespace SlotText

/-- Ends with the fault that a diagnostic describes. -/
def Outcome.refuse {α : Type} (d : Outcome Diagnostic) : Outcome α :=
  match d with
  | .ok d => .error (.ofDiagnostic d)
  | .error e => .error e

end SlotText
