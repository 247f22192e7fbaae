import SlotText.Number.Text
import SlotText.Number.Reading

/-!
# Values as operands

The conversions to digits, to a power of ten and to an ordinal, applied to values of any type.
Truth values count as zero and one. Fractions have digits, through the nearest float, and
ordinals. A text has a power of ten if it is a decimal numeral. Every other value is refused, by
each conversion for the first thing that it needs and the value lacks.

The ordinal of a decimal is found by computing with decimals, which rounds to 28 digits first.
Neither the number nor the quotients by ten and a hundred may then be out of bounds.
-/
namespace SlotText

namespace Decimal

/-- The digits that computed decimals have at most. -/
def computedPrecision : Nat := 28

/-- The largest power of ten that the first digit of a computed decimal can stand for. -/
def computedOrder : Int := 999999

/-- A coefficient and an exponent with no more digits than computed decimals have, the nearest
ones, halves going to the even coefficient. -/
def computed (c : Nat) (e : Int) : Nat × Int :=
  let surplus := precision c - computedPrecision
  (Binary64.roundHalfEven c (Nat.pow 10 surplus), e + surplus)

def ordinalSuffix : Decimal → Outcome Text
  | infinite _ => .error .invalidDecimal
  | nan _ true _ => .error .invalidDecimal
  | nan _ false _ => .ok ['t', 'h']
  | finite _ c e =>
    let (c, e) := computed c e
    let order := e + precision c - 1
    if c = 0 then .ok ['t', 'h']
    else if computedOrder < order then .error .decimalTooLarge
    else if (computedPrecision : Int) < order then .error .remainderTooLong
    else if isWhole c e then .ok (Numeral.ordinalSuffix (wholePart c e))
    else .ok ['t', 'h']

end Decimal

namespace Value

/-- The value in lower-case digits of a base. -/
def inBase (v : Value) (base : Int) : Outcome Text :=
  match v with
  | bool b => Radix.ofInt base (if b then 1 else 0)
  | fraction n d =>
    let x := Binary64.ofRatio (n < 0) n.natAbs d
    if x.isFinite then do
      let s ← Radix.ofMagnitude base x
      return Decimal.signText (n < 0) ++ s
    else .error .quotientTooLarge
  | v => match v.number? with
    | some n => n.inBase base
    | Option.none => .error (.notOrdered v.typeName)

/-- The decimal that stands for a value. -/
def toDecimal (v : Value) : Outcome Decimal :=
  match v with
  | bool b => .ok (.ofInt (if b then 1 else 0))
  | text s => Decimal.read s
  | v => match v.number? with
    | some n => .ok n.toDecimal
    | Option.none => .error (.notConvertible v.typeName)

/-- One digit, the others behind a point, and a power of ten. -/
def scientificText (v : Value) (upper : Bool) : Outcome Text := do
  let d ← v.toDecimal
  return d.scientificText upper

/-- The suffix of a value as an ordinal. One that is not whole has the most common suffix. -/
def ordinalSuffix (v : Value) : Outcome Text :=
  match v with
  | bool b => .ok (Numeral.ordinalSuffix (if b then 1 else 0))
  | int n => .ok (Numeral.ordinalSuffix n)
  | float x =>
    .ok (if x.isWhole then Numeral.ordinalSuffix (x.ratio.1 / x.ratio.2 : Nat) else ['t', 'h'])
  | decimal d => d.ordinalSuffix
  | fraction n d => .ok (if d = 1 then Numeral.ordinalSuffix n else ['t', 'h'])
  | v => .error (.noMagnitude v.typeName)

end Value

end SlotText
