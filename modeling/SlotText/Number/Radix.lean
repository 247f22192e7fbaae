import SlotText.Value.Basic
import SlotText.Binary64

/-!
# Numbers in other bases

A whole number is written exactly in any base. A float that is not whole is a whole part and a
binary fraction, and such a fraction ends in every even base: multiplying the remainder by the
base halves its denominator at least once. A decimal that is not whole is first rounded to the
nearest float, because its own digits need not end.

A base may be negative. Quotients are then rounded down as they are for a positive base, so the
remainders, which are the digits, lie between the base and zero. A negative digit has the sign
found by counting from the last sign backwards.

Not every base has numerals. Dividing by one or minus one makes no number smaller, and in an odd
base a binary fraction does not end: looking for the next digit would go on for ever. What the
functions give for these bases stands for no text.
-/
namespace SlotText.Radix

/-- The sign of a digit. -/
def sign (d : Int) : Outcome Char :=
  if 0 ≤ d ∧ d < Numeral.signs then .ok (Numeral.sign d.toNat)
  else if -Numeral.signs ≤ d ∧ d < 0 then .ok (Numeral.sign (d + Numeral.signs).toNat)
  else .error (if Text.isIndex d then .noDigitSign else .indexTooLarge)

/-- The digits of a number with the signs they are written with, found from the last digit on. -/
def written (ds : List Int) : Outcome Text := (ds.reverse.mapM sign).map List.reverse

/-- The digits of `n` in a negative base in front of `tail`. A quotient is not larger in magnitude
than half of a number above one, and is zero after one and minus one. -/
def negativeDigitsOnto (base : Int) : Nat → Int → List Int → List Int
  | 0, _, tail => tail
  | fuel + 1, n, tail =>
    if n.fdiv base = 0 then n.fmod base :: tail
    else negativeDigitsOnto base fuel (n.fdiv base) (n.fmod base :: tail)

/-- The digits of a natural number in any base but zero, one and minus one. -/
def digits (base : Int) (n : Nat) : List Int :=
  if 0 < base then (Numeral.digits base.toNat n).map Int.ofNat
  else negativeDigitsOnto base (2 * n + 2) n []

def ofNat (base : Int) (n : Nat) : Outcome Text :=
  if base = 0 then .error .baseZero else written (digits base n)

def ofInt (base n : Int) : Outcome Text := do
  let s ← ofNat base n.natAbs
  return Decimal.signText (n < 0) ++ s

/-- The signs of the digits of `r / den` behind the point, until nothing remains. The base is one in
which the fraction ends. -/
def fractionText (base : Int) (den : Nat) : Nat → Int → Outcome Text
  | 0, _ => .ok []
  | fuel + 1, r =>
    if r = 0 then .ok []
    else do
      let c ← sign (base * r / den)
      let s ← fractionText base den fuel (base * r % den)
      return c :: s

/-- The magnitude of a finite float. Remainders are below the denominator, so after as many digits
as it counts nothing remains or digits have come back. -/
def ofMagnitude (base : Int) (x : Binary64) : Outcome Text := do
  let (num, den) := x.ratio
  let fraction ← fractionText base den den ((num % den : Nat) : Int)
  let whole ← ofNat base (num / den)
  return if fraction.isEmpty then whole else whole ++ '.' :: fraction

def ofFloat (base : Int) (x : Binary64) : Outcome Text :=
  if x.isNaN then .error .undefinedRatio
  else if !x.isFinite then .error .infiniteRatio
  else if x.isWhole then
    let n := x.ratio.1 / x.ratio.2
    ofInt base (if x.isNegative then -(n : Int) else n)
  else do
    let s ← ofMagnitude base x
    return Decimal.signText x.isNegative ++ s

def ofDecimal (base : Int) (d : Decimal) : Outcome Text :=
  match d with
  | .nan .. => .error .invalidDecimal
  | .infinite _ => .error .infiniteInteger
  | .finite negative c e =>
    if Decimal.isWhole c e then
      let n := Decimal.wholePart c e
      ofInt base (if negative then -(n : Int) else n)
    else
      let x := Binary64.ofDecimal d
      if !x.isFinite then .error .infiniteRatio
      else do
        let s ← ofMagnitude base x
        return Decimal.signText negative ++ s

theorem sign_natCast {d : Nat} (h : d < Numeral.signs) :
    sign d = .ok (Numeral.sign d) := by
  simp [sign, h]

theorem digits_natCast {base : Nat} (h : 0 < base) (n : Nat) :
    digits base n = (Numeral.digits base n).map Int.ofNat := by
  simp [digits, h]

end SlotText.Radix

namespace SlotText

/-- A number in lower-case digits of a base. -/
def Number.inBase (base : Int) : Number → Outcome Text
  | .int n => Radix.ofInt base n
  | .float x => Radix.ofFloat base x
  | .decimal d => Radix.ofDecimal base d

end SlotText
