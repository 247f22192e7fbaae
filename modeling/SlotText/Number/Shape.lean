import SlotText.Specifier.Basic

/-!
# Shaping numbers

What a specifier does to the text of a number: digits behind the point are added or cut off and
never rounded, a sign and a mark of the base go in front, and zeros fill the digits up to the
width. Ordinals take neither digits nor zeros, and neither do numbers that are not finite.
-/
namespace SlotText

/-- A count of digits that an index can hold. -/
def Text.count (n : Int) : Outcome Nat :=
  if Text.isIndex n then .ok n.toNat else .error .digitCountTooLarge

/-- The text before the power of ten, and the power with its marker. -/
def Text.splitPower (s : Text) : Text × Text :=
  match Text.cut 'e' s with
  | (mantissa, some power) => (mantissa, 'e' :: power)
  | _ => match Text.cut 'E' s with
    | (mantissa, some power) => (mantissa, 'E' :: power)
    | _ => (s, [])

/-- The text with as many digits behind the point as `precision` says: the rest is cut off and
what is missing are zeros. Without digits there is no point. A negative precision takes digits
from the end of those that are there. -/
def Text.withPrecision (s : Text) (precision : Int) (scientific : Bool) : Outcome Text := do
  let (mantissa, power) := if scientific then s.splitPower else (s, [])
  let (whole, fraction) := Text.cut '.' mantissa
  if precision = 0 then return whole ++ power
  let n ← Text.count precision
  return whole ++ '.' :: ((fraction.getD []).sliceTo precision).rightpad n '0' ++ power

/-- A shaped number; one filled with zeros is not aligned any more. -/
structure Shaped where
  text : Text
  zeroPadded : Bool
  deriving DecidableEq, Repr

namespace Shaped

/-- The sign of a text of a number, and the text without it. -/
def sign (spec : Specifier) (s : Text) : Text × Text :=
  match s with
  | '-' :: s => (['-'], s)
  | s => (spec.sign.text, s)

/-- The text of a number in the shape that a specifier asks for. -/
def of (spec : Specifier) (finite : Bool) (s : Text) : Outcome Shaped := do
  let digits := finite && !spec.conversion.isOrdinal
  let s ← match spec.precision.given? with
    | some p => if digits then s.withPrecision p spec.conversion.isScientific else .ok s
    | none => .ok s
  let (sign, s) := sign spec s
  let front := sign ++ if spec.pretty then spec.conversion.baseMark else []
  match spec.width.given? with
  | some width =>
    if spec.zeroPad && digits then
      let n ← Text.count (width - front.length)
      return ⟨front ++ s.leftpad n '0', true⟩
    else return ⟨front ++ s, false⟩
  | none => return ⟨front ++ s, false⟩

end Shaped

end SlotText
