import SlotText.Decimal

/-!
# Binary floating-point numbers of 64 bits

A number is its bit pattern: a sign, eleven bits of exponent and fifty-two of fraction. A finite
one stands for `significand · 2^exponent`, and all arithmetic on it is exact arithmetic on these
two, so nothing here rests on the machine's own operations. `ofRatio` rounds a ratio of natural
numbers to the nearest representable number, halves going to the even significand.
-/
namespace SlotText

structure Binary64 where
  bits : UInt64
  deriving DecidableEq, Repr

namespace Binary64

/-- What the sign bit counts for, `2^63`. -/
abbrev signWeight : Nat := 9223372036854775808

/-- The number of fractions, `2^52`; also the bit that stands before the fraction. -/
abbrev fractions : Nat := 4503599627370496

def isNegative (x : Binary64) : Bool := signWeight ≤ x.bits.toNat

def exponentField (x : Binary64) : Nat := x.bits.toNat / fractions % 2048

def fractionField (x : Binary64) : Nat := x.bits.toNat % fractions

def isFinite (x : Binary64) : Bool := x.exponentField != 2047

def isNaN (x : Binary64) : Bool := x.exponentField == 2047 && x.fractionField != 0

def significand (x : Binary64) : Nat :=
  if x.exponentField = 0 then x.fractionField else fractions + x.fractionField

def exponent (x : Binary64) : Int :=
  if x.exponentField = 0 then -1074 else (x.exponentField : Int) - 1075

/-- A numerator and a denominator of the magnitude of a finite number. -/
def ratio (x : Binary64) : Nat × Nat :=
  (x.significand * Nat.pow 2 x.exponent.toNat, Nat.pow 2 (-x.exponent).toNat)

def isWhole (x : Binary64) : Bool := x.isFinite && x.ratio.1 % x.ratio.2 == 0

/-- The whole number nearest to a ratio, halves going to the even one. -/
def roundHalfEven (num den : Nat) : Nat :=
  let q := num / den
  let r := num % den
  if den < 2 * r ∨ (den = 2 * r ∧ q % 2 = 1) then q + 1 else q

/-- The power of two at or below a positive ratio. -/
def binaryOrder (num den : Nat) : Int :=
  let e : Int := (num.log2 : Int) - den.log2
  if num * Nat.pow 2 (-e).toNat < den * Nat.pow 2 e.toNat then e - 1 else e

/-- The pattern of an infinity without its sign; every finite one lies below it. -/
def infinityBits : Nat := 2047 * fractions

def ofMagnitudeBits (negative : Bool) (n : Nat) : Binary64 :=
  ⟨UInt64.ofNat ((if negative then signWeight else 0) + n)⟩

def infinite (negative : Bool) : Binary64 := ofMagnitudeBits negative infinityBits

def nan : Binary64 := ofMagnitudeBits false (infinityBits + fractions / 2)

/-- The number nearest to `num / den`. A significand that rounds up to `2^53` carries into the
exponent by itself, because the two fields are neighbours. -/
def ofRatio (negative : Bool) (num den : Nat) : Binary64 :=
  if num = 0 then ofMagnitudeBits negative 0 else
    let q := max (binaryOrder num den - 52) (-1074)
    let m := roundHalfEven (num * Nat.pow 2 (-q).toNat) (den * Nat.pow 2 q.toNat)
    ofMagnitudeBits negative (min ((q + 1074).toNat * fractions + m) infinityBits)

/-- An order of magnitude in base ten above that of every finite number, and one whose negative
is below that of every number but zero. -/
def outmostOrder : Int := 400

def ofDecimal : Decimal → Binary64
  | .finite negative c e =>
    let order := e + Decimal.precision c
    if c = 0 ∨ order < -outmostOrder then ofMagnitudeBits negative 0
    else if outmostOrder < order then infinite negative
    else ofRatio negative (Decimal.ratio c e).1 (Decimal.ratio c e).2
  | .infinite negative => infinite negative
  | .nan .. => nan

/-- The number nearest to a numeral, or what `inf`, `infinity` or `nan` stands for. -/
def ofText? (s : Text) : Option Binary64 :=
  let (negative, body) := Decimal.dropSign s
  let word := body.map Char.toLower
  if word = "inf".toList ∨ word = "infinity".toList then some (infinite negative)
  else if word = "nan".toList then some nan
  else (Decimal.magnitudeOfText? body).map fun (c, e) => ofDecimal (.finite negative c e)

end Binary64

end SlotText
