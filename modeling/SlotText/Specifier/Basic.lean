import SlotText.Failure

/-!
# Specifiers

How the value of one slot is laid out: fill and alignment within a width, the sign of numbers
that are not negative, two flags, a precision and a conversion. Width and precision are amounts
that are absent, given, or deferred to the slot that follows; a specifier is bound once neither
is deferred.
-/
namespace SlotText

inductive Alignment where
  | left
  | center
  | right
  deriving DecidableEq, Repr

namespace Alignment

def symbol : Alignment → Char
  | left => '<'
  | center => '^'
  | right => '>'

def ofSymbol? (c : Char) : Option Alignment :=
  if c = '<' then some left
  else if c = '^' then some center
  else if c = '>' then some right
  else none

def ofText (s : Text) : Outcome Alignment :=
  match s with
  | [c] => match ofSymbol? c with
    | some a => .ok a
    | none => .error (.unknownName .alignment s)
  | _ => .error (.unknownName .alignment s)

theorem ofSymbol?_symbol (a : Alignment) : ofSymbol? a.symbol = some a := by
  cases a <;> rfl

theorem eq_symbol_of_ofSymbol? {c : Char} {a : Alignment} (h : ofSymbol? c = some a) :
    c = a.symbol := by
  unfold ofSymbol? at h
  split at h
  · cases h
    assumption
  · split at h
    · cases h
      assumption
    · split at h
      · cases h
        assumption
      · cases h

end Alignment

/-- What stands in front of a number that is not negative. -/
inductive SignPolicy where
  | nothing
  | plus
  | blank
  deriving DecidableEq, Repr

namespace SignPolicy

def symbol : SignPolicy → Text
  | nothing => []
  | plus => ['+']
  | blank => ['-']

def ofSymbol? (c : Char) : Option SignPolicy :=
  if c = '+' then some plus else if c = '-' then some blank else none

def ofText (s : Text) : Outcome SignPolicy :=
  match s with
  | [] => .ok nothing
  | [c] => match ofSymbol? c with
    | some p => .ok p
    | none => .error (.unknownName .signPolicy s)
  | _ => .error (.unknownName .signPolicy s)

/-- The sign itself. -/
def text : SignPolicy → Text
  | nothing => []
  | plus => ['+']
  | blank => [' ']

end SignPolicy

inductive Conversion where
  | natural
  | octal
  | hexLower
  | hexUpper
  | binary
  | scientificLower
  | scientificUpper
  | ordinalLower
  | ordinalUpper
  | inspection
  deriving DecidableEq, Repr

namespace Conversion

def symbol : Conversion → Text
  | natural => []
  | octal => ['o']
  | hexLower => ['x']
  | hexUpper => ['X']
  | binary => ['b']
  | scientificLower => ['e']
  | scientificUpper => ['E']
  | ordinalLower => ['n']
  | ordinalUpper => ['N']
  | inspection => ['?']

/-- The conversions that have a sign, in no particular order. -/
def coded : List Conversion :=
  [octal, hexLower, hexUpper, binary, scientificLower, scientificUpper, ordinalLower,
    ordinalUpper, inspection]

def ofSymbol? (c : Char) : Option Conversion := coded.find? (·.symbol == [c])

def ofText (s : Text) : Outcome Conversion :=
  match (natural :: coded).find? (·.symbol == s) with
  | some c => .ok c
  | none => .error (.unknownName .conversion s)

/-- The base of a conversion to digits of a base other than ten. -/
def base? : Conversion → Option Nat
  | octal => some 8
  | hexLower => some 16
  | hexUpper => some 16
  | binary => some 2
  | _ => none

def isRadix (c : Conversion) : Bool := c.base?.isSome

/-- What marks the base when the pretty flag is set. -/
def baseMark : Conversion → Text
  | octal => ['0', 'o']
  | hexLower => ['0', 'x']
  | hexUpper => ['0', 'x']
  | binary => ['0', 'b']
  | _ => []

def isScientific (c : Conversion) : Bool := c = scientificLower || c = scientificUpper

def isOrdinal (c : Conversion) : Bool := c = ordinalLower || c = ordinalUpper

def isUpper (c : Conversion) : Bool := c = hexUpper || c = scientificUpper || c = ordinalUpper

theorem ofSymbol?_symbol {c : Conversion} (h : c ≠ natural) :
    ∃ s, c.symbol = [s] ∧ ofSymbol? s = some c := by
  cases c <;> first | exact absurd rfl h | exact ⟨_, rfl, rfl⟩

theorem symbol_of_ofSymbol? {s : Char} {c : Conversion} (h : ofSymbol? s = some c) :
    c.symbol = [s] := by
  simpa using List.find?_some h

end Conversion

/-- A width or precision: none, a number, or whatever the next slot holds. -/
inductive Amount where
  | absent
  | given (n : Int)
  | deferred
  deriving DecidableEq, Repr

namespace Amount

def given? : Amount → Option Int
  | given n => some n
  | _ => none

theorem eq_given_of_given? {a : Amount} {n : Int} (h : a.given? = some n) : a = given n := by
  cases a with
  | given m =>
    cases h
    rfl
  | absent => cases h
  | deferred => cases h

end Amount

structure Specifier where
  fill : Text := [' ']
  alignment : Alignment := .right
  sign : SignPolicy := .nothing
  pretty : Bool := false
  zeroPad : Bool := false
  width : Amount := .given 0
  precision : Amount := .absent
  conversion : Conversion := .natural
  deriving DecidableEq, Repr

namespace Specifier

/-- No amount waits for another slot. -/
def isBound (s : Specifier) : Bool := s.width ≠ .deferred && s.precision ≠ .deferred

/-- The specifier with the amounts that other slots have supplied. -/
def bind (s : Specifier) (width precision : Option Int) : Specifier :=
  { s with
    width := (width.map .given).getD s.width
    precision := (precision.map .given).getD s.precision }

/-- Sign, zero padding and precision do not apply to a dump, whatever was written. -/
def effective (s : Specifier) : Specifier :=
  if s.conversion = .inspection then
    { s with sign := .nothing, zeroPad := false, precision := .absent }
  else s

/-- The width as a number, zero if it is not given. -/
def targetWidth (s : Specifier) : Int := s.width.given?.getD 0

theorem bind_none_none (s : Specifier) : s.bind none none = s := rfl

theorem width_effective (s : Specifier) : s.effective.width = s.width := by
  unfold effective
  split
  · rfl
  · rfl

theorem conversion_effective (s : Specifier) : s.effective.conversion = s.conversion := by
  unfold effective
  split
  · rfl
  · rfl

theorem isBound_iff (s : Specifier) :
    s.isBound = true ↔ s.width ≠ .deferred ∧ s.precision ≠ .deferred := by
  simp [isBound]

end Specifier

end SlotText
