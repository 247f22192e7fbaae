import SlotText.Specifier.Basic
import SlotText.Diagnostic.Message
import SlotText.Text.Blank

/-!
# Placements

The specifier of a slot stands at the start of the literal that follows it. Reading it yields a
placement: the specifier, the text after it, and the slots that are absorbed as its width or
precision. A colon introduces a specifier and a doubled colon stands for a plain one. Then come,
each of them optional and in this order,

* an alignment, with or without a fill before it;
* a sign policy, the pretty flag `#` and the zero flag `0`;
* the digits of a width;
* a point and the digits of a precision;
* the letter of a conversion;
* the end: a blank, which is kept, a semicolon, which is not, or the end of the literal.

A width is deferred if the literal ends where its digits would stand, and a precision if it ends
after the point. The next slot then supplies it, and reading goes on in the literal behind that
slot as if the two literals were one.
-/
namespace SlotText

/-- How the value of a slot is placed, and what follows it. -/
structure Placement where
  slot : Int
  spec : Specifier := {}
  tail : Text
  widthSlot : Option Int := none
  precisionSlot : Option Int := none
  escaped : Bool := false
  deriving DecidableEq, Repr

namespace Placement

/-- The number of slots that are absorbed. -/
def absorbed (p : Placement) : Nat :=
  (if p.widthSlot.isSome then 1 else 0) + (if p.precisionSlot.isSome then 1 else 0)

/-- The number of slots that are taken, with the one whose value is placed. -/
def consumed (p : Placement) : Nat := 1 + p.absorbed

/-- A reading of a specifier: the literals fused so far, what is left of them, and the literals
that can still be absorbed together with the slots before them. -/
structure Reading where
  slot : Int
  count : Int
  fused : Text
  rest : Text
  following : List Text
  absorbed : Nat := 0
  deriving DecidableEq, Repr

namespace Reading

/-- The slot after those that are taken already. -/
def nextSlot (r : Reading) : Int := r.slot + 1 + r.absorbed

/-- Takes the next slot and goes on in the literal behind it. -/
def absorb (r : Reading) : Outcome Reading :=
  match r.following with
  | [] => Outcome.refuse (Diagnostic.missingArgument (.position r.nextSlot) (.position r.count))
  | literal :: following =>
    .ok { r with
      fused := r.fused ++ literal
      rest := r.rest ++ literal
      following := following
      absorbed := r.absorbed + 1 }

/-- A character is a fill only if an alignment follows it in the same literal. -/
def takeAlignment : Text → (Text × Alignment) × Text
  | [] => (([' '], .right), [])
  | [c] => match Alignment.ofSymbol? c with
    | some a => (([' '], a), [])
    | none => (([' '], .right), [c])
  | c :: d :: rest => match Alignment.ofSymbol? d with
    | some a => (([c], a), rest)
    | none => match Alignment.ofSymbol? c with
      | some a => (([' '], a), d :: rest)
      | none => (([' '], .right), c :: d :: rest)

def takeSign : Text → SignPolicy × Text
  | [] => (.nothing, [])
  | c :: rest => match SignPolicy.ofSymbol? c with
    | some p => (p, rest)
    | none => (.nothing, c :: rest)

def takeFlag (flag : Char) : Text → Bool × Text
  | [] => (false, [])
  | c :: rest => if c = flag then (true, rest) else (false, c :: rest)

def takeDigits (s : Text) : Text × Text :=
  (s.takeWhile Numeral.isDigit, s.dropWhile Numeral.isDigit)

def takeConversion : Text → Conversion × Text
  | [] => (.natural, [])
  | c :: rest => match Conversion.ofSymbol? c with
    | some k => (k, rest)
    | none => (.natural, c :: rest)

/-- Digits, or the next slot if there is nothing left, or else zero. -/
def takeAmount (r : Reading) : Outcome (Amount × Reading) := do
  let (ds, rest) := takeDigits r.rest
  if ds ≠ [] then
    let n ← Numeral.read ds
    return (.given n, { r with rest := rest })
  else if r.rest = [] then
    let r ← r.absorb
    return (.deferred, r)
  else return (.given 0, r)

/-- A precision is there only after a point. -/
def takePrecision (r : Reading) : Outcome (Amount × Reading) :=
  match r.rest with
  | '.' :: rest => takeAmount { r with rest := rest }
  | _ => .ok (.absent, r)

/-- The text after the specifier. -/
def takeEnd (r : Reading) : Outcome Text :=
  match r.rest with
  | [] => .ok []
  | c :: rest =>
    if Text.isBlank c then .ok (c :: rest)
    else if c = ';' then .ok rest
    else Outcome.refuse (Diagnostic.malformedSpecifier (.position r.slot)
      (r.fused.length - r.rest.length) (Text.quoted [c]))

/-- What stands after the introducing colon. -/
def placement (r : Reading) : Outcome Placement := do
  let ((fill, alignment), rest) := takeAlignment r.rest
  let (sign, rest) := takeSign rest
  let (pretty, rest) := takeFlag '#' rest
  let (zeroPad, rest) := takeFlag '0' rest
  let r : Reading := { r with rest := rest }
  let (width, r₁) ← takeAmount r
  let (precision, r₂) ← takePrecision r₁
  let (conversion, rest) := takeConversion r₂.rest
  let tail ← takeEnd { r₂ with rest := rest }
  return {
    slot := r.slot
    spec := { fill, alignment, sign, pretty, zeroPad, width, precision, conversion }
    tail := tail
    widthSlot := if width = .deferred then some r.nextSlot else none
    precisionSlot := if precision = .deferred then some r₁.nextSlot else none }

end Reading

/-- The placement of a slot, read from the literal behind it and those that follow. -/
def read (slot count : Int) (literal : Text) (following : List Text) : Outcome Placement :=
  match literal with
  | ':' :: ':' :: tail => .ok { slot, tail := ':' :: tail, escaped := true }
  | ':' :: rest => Reading.placement { slot, count, fused := literal, rest, following }
  | tail => .ok { slot, tail }

end Placement

end SlotText
