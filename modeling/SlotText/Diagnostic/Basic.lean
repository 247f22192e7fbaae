import SlotText.Text.Basic

/-!
# Diagnostics

What is known about a template that cannot be rendered: a code, a message, the slot at fault,
the offset inside the specifier of that slot, advice, and the slots visited while references
were followed. Slots and offsets count from zero, so they are natural numbers here; a negative
one is refused before a diagnostic exists.

Codes fall into three families: where a value comes from, what a width or precision may be, and
how a specifier is written. Faults are sorted by a tree of categories that has these families
below its root.
-/
namespace SlotText

inductive Code where
  | missingArgument
  | invalidReference
  | selfReference
  | referenceCycle
  | invalidWidth
  | invalidPrecision
  | malformedSpecifier
  deriving DecidableEq, Repr

namespace Code

def number : Code → Nat
  | missingArgument => 1001
  | invalidReference => 1002
  | selfReference => 1003
  | referenceCycle => 1004
  | invalidWidth => 2001
  | invalidPrecision => 2002
  | malformedSpecifier => 3001

def label : Code → Text
  | missingArgument => "MISSING_ARGUMENT".toList
  | invalidReference => "INVALID_REFERENCE".toList
  | selfReference => "SELF_REFERENCE".toList
  | referenceCycle => "REFERENCE_CYCLE".toList
  | invalidWidth => "INVALID_WIDTH".toList
  | invalidPrecision => "INVALID_PRECISION".toList
  | malformedSpecifier => "MALFORMED_SPECIFIER".toList

end Code

structure Diagnostic where
  code : Code
  message : Text
  slot : Option Nat := none
  offset : Option Nat := none
  hint : Option Text := none
  severity : Text := "error".toList
  path : Option (List Int) := none
  deriving DecidableEq, Repr

/-- The categories of faults. Every one but `format` refines another. -/
inductive Category where
  | format
  | reference
  | missingArgument
  | invalidReference
  | selfReference
  | referenceCycle
  | argument
  | invalidWidth
  | invalidPrecision
  | grammar
  | malformedSpecifier
  deriving DecidableEq, Repr

namespace Category

def parent? : Category → Option Category
  | format => none
  | reference => some format
  | missingArgument => some reference
  | invalidReference => some reference
  | selfReference => some invalidReference
  | referenceCycle => some invalidReference
  | argument => some format
  | invalidWidth => some argument
  | invalidPrecision => some argument
  | grammar => some format
  | malformedSpecifier => some grammar

/-- The category and everything it refines, up to the root; no chain is longer than four. -/
def lineage (c : Category) : List Category :=
  climb 3 c
where
  climb : Nat → Category → List Category
    | 0, c => [c]
    | n + 1, c => c :: (match c.parent? with
      | some p => climb n p
      | none => [])

end Category

/-- The category a diagnostic with this code belongs to. -/
def Code.category : Code → Category
  | missingArgument => .missingArgument
  | invalidReference => .invalidReference
  | selfReference => .selfReference
  | referenceCycle => .referenceCycle
  | invalidWidth => .invalidWidth
  | invalidPrecision => .invalidPrecision
  | malformedSpecifier => .malformedSpecifier

end SlotText
