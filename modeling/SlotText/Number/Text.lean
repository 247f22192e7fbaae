import SlotText.Number.Radix
import SlotText.Specifier.Basic
import SlotText.Binary64.Shortest

/-!
# The texts of a number

What each conversion makes of a finite number, before sign, precision and padding. A float
counts as the decimal that its shortest text is a numeral of, except in other bases, where its
exact value is written.
-/
namespace SlotText

namespace Decimal

/-- One digit that is not zero, the others without zeros at the end, and a power of ten. A zero
and a number that is not finite have the digits of their coefficient or payload and the power
zero. -/
def scientificText (d : Decimal) (upper : Bool) : Text :=
  let (c, order) : Nat × Int := match d with
    | finite _ c e => (c, if c = 0 then 0 else e + (Numeral.digits 10 c).length - 1)
    | infinite _ => (0, 0)
    | nan _ _ payload => (payload, 0)
  let ds := if c = 0 then [0] else Numeral.trimZeros (Numeral.digits 10 c)
  signText d.isNegative ++
    placeExponent (if upper then 'E' else 'e') (ds.map Numeral.sign) order

/-- The nearest whole number, halves going away from zero; zero if there is none. -/
def nearestInt : Decimal → Int
  | finite negative c e =>
    let n : Int := roundHalfUp c e
    if negative then -n else n
  | _ => 0

end Decimal

/-- The English suffix of an ordinal number, chosen by the last two digits. -/
def Numeral.ordinalSuffix (n : Int) : Text :=
  let m := n.natAbs
  if m % 100 = 11 ∨ m % 100 = 12 ∨ m % 100 = 13 then ['t', 'h']
  else match m % 10 with
    | 1 => ['s', 't']
    | 2 => ['n', 'd']
    | 3 => ['r', 'd']
    | _ => ['t', 'h']

/-- A whole number as an ordinal. -/
def Numeral.ordinal (n : Int) (upper : Bool) : Outcome Text := do
  let s ← Numeral.write n
  let suffix := Numeral.ordinalSuffix n
  return s ++ if upper then suffix.map Char.toUpper else suffix

namespace Number

/-- The number as a decimal, by its shortest text if it is a float. -/
def toDecimal : Number → Decimal
  | int n => .ofInt n
  | float x => x.toDecimal
  | decimal d => d

def nearestInt : Number → Int
  | int n => n
  | n => n.toDecimal.nearestInt

/-- The natural text; without a power of ten if the digits behind the point matter. -/
def naturalText (n : Number) (fixed : Bool) : Outcome Text :=
  match n with
  | int n => Numeral.write n
  | float x => .ok (if fixed then x.toDecimal.fixedText else x.text)
  | decimal d => .ok (if fixed then d.fixedText else d.text)

/-- The text of a finite number under a conversion. -/
def convert (n : Number) (c : Conversion) (fixed : Bool) : Outcome Text :=
  match c.base? with
  | some base => do
    let s ← n.inBase base
    return if c.isUpper then s.map Char.toUpper else s
  | none =>
    if c.isScientific then .ok (n.toDecimal.scientificText c.isUpper)
    else if c.isOrdinal then Numeral.ordinal n.nearestInt c.isUpper
    else n.naturalText fixed

end Number

end SlotText
