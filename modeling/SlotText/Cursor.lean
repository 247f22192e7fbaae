import SlotText.Failure

/-!
# Cursors

A position in a text that is read from left to right. Reading makes a new cursor and leaves the
old one as it is. Text can be appended behind the end while the position stays. A position may
be negative; it then counts from the end, as it does everywhere for indices into a text.
-/
namespace SlotText

structure Cursor where
  source : Text
  position : Int
  deriving DecidableEq, Repr

namespace Cursor

def atEnd (c : Cursor) : Bool := (c.source.length : Int) ≤ c.position

/-- The character at an index of the source, which has to be there. -/
def charAt (c : Cursor) (i : Int) : Outcome Char :=
  match c.source.at? i with
  | some x => .ok x
  | none => .error (if Text.isIndex i then .positionOutside else .indexTooLarge)

/-- The character at the cursor. At the end it is refused with the numeral of the position. -/
def current (c : Cursor) : Outcome Char :=
  if c.atEnd then do
    let _ ← Numeral.write c.position
    throw (.endOfSpecifier c.position)
  else c.charAt c.position

/-- The character some way on, or none beyond the end. -/
def peek (c : Cursor) (offset : Int) : Outcome (Option Char) :=
  if (c.source.length : Int) ≤ c.position + offset then .ok none
  else (c.charAt (c.position + offset)).map some

/-- Further on, but not beyond the end. -/
def advance (c : Cursor) (n : Int) : Cursor :=
  { c with position := min (c.position + n) c.source.length }

/-- One character further if the text at the cursor is the expected single character. -/
def expect (c : Cursor) (expected : Text) : Outcome (Option Cursor) :=
  if c.atEnd then .ok none
  else c.current.map fun x => if expected = [x] then some (c.advance 1) else none

/-- The text from the cursor up to a boundary. -/
def sliceTo (c : Cursor) (stop : Int) : Text := c.source.slice c.position stop

/-- What is left to read. -/
def remainder (c : Cursor) : Text := c.source.slice c.position c.source.length

/-- The cursor behind the digits that stand at it. Every round moves it one character on. -/
def skipDigits : Nat → Cursor → Outcome Cursor
  | 0, c => .ok c
  | fuel + 1, c =>
    if c.atEnd then .ok c
    else match c.current with
      | .error e => .error e
      | .ok x => if Numeral.isDigit x then skipDigits fuel (c.advance 1) else .ok c

/-- A run of decimal digits and the cursor behind it. -/
def takeDigits (c : Cursor) : Outcome (Text × Cursor) :=
  (skipDigits (c.source.length - c.position).toNat c).map fun stop =>
    (c.sliceTo stop.position, stop)

/-- The same position in a text that goes on behind its end. -/
def extend (c : Cursor) (s : Text) : Cursor := { c with source := c.source ++ s }

end Cursor

end SlotText
