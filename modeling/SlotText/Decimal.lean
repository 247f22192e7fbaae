import SlotText.Numeral

/-!
# Decimal numbers

A decimal is a sign, a coefficient and a power of ten, so trailing zeros are kept: `1.5` and
`1.50` are equal in value and differ in form. Infinities and the two sorts of not-a-number
complete the type; the payload of the latter is a number, with zero for none.

Two written forms are given. `text` uses a power of ten when the exponent is positive or the
first digit stands more than six places after the point. `fixedText` never uses one.
-/
namespace SlotText

inductive Decimal where
  | finite (negative : Bool) (coefficient : Nat) (exponent : Int)
  | infinite (negative : Bool)
  | nan (negative signaling : Bool) (payload : Nat)
  deriving DecidableEq, Repr

namespace Decimal

def isFinite : Decimal → Bool
  | finite .. => true
  | _ => false

def isNegative : Decimal → Bool
  | finite negative .. => negative
  | infinite negative => negative
  | nan negative .. => negative

def ofInt (n : Int) : Decimal := finite (n < 0) n.natAbs 0

def signText (negative : Bool) : Text := if negative then ['-'] else []

/-- An exponent with its sign written out. -/
def exponentText (e : Int) : Text := (if e < 0 then '-' else '+') :: Numeral.ofNat e.natAbs

/-- Digits with a point after the first `place` of them. Missing digits on either side are
zeros, and a point with nothing after it is left out. -/
def placePoint (ds : Text) (place : Int) : Text :=
  if place ≤ 0 then '0' :: '.' :: List.replicate (-place).toNat '0' ++ ds
  else if ds.length ≤ place.toNat then ds ++ List.replicate (place.toNat - ds.length) '0'
  else ds.take place.toNat ++ '.' :: ds.drop place.toNat

/-- One digit, a point, the other digits and a power of ten. -/
def placeExponent (marker : Char) (ds : Text) (e : Int) : Text :=
  placePoint ds 1 ++ marker :: exponentText e

/-- The written form that keeps coefficient and exponent apart in every case. -/
def text : Decimal → Text
  | finite negative c e =>
    let ds := Numeral.ofNat c
    let place := e + ds.length
    signText negative ++
      if e ≤ 0 ∧ -6 < place then placePoint ds place else placeExponent 'E' ds (place - 1)
  | infinite negative => signText negative ++ "Infinity".toList
  | nan negative signaling payload =>
    signText negative ++ (if signaling then "sNaN".toList else "NaN".toList) ++
      (if payload = 0 then [] else Numeral.ofNat payload)

/-- The digits as they stand around the point, however far it is moved. A zero takes no zeros
before the point beyond the first. -/
def fixedText : Decimal → Text
  | finite negative c e =>
    let ds := Numeral.ofNat c
    signText negative ++
      if c = 0 ∧ 0 ≤ e then ['0'] else placePoint ds (e + ds.length)
  | d => d.text

/-- The number of digits of a coefficient. -/
def precision (c : Nat) : Nat := (Numeral.digits 10 c).length

/-- The places behind the point that count in `c · 10^e`. With one place more than there are
digits the number lies below a tenth already, and further places change neither its whole part
nor the nearest whole number. -/
def places (c : Nat) (e : Int) : Nat := min (-e).toNat (precision c + 1)

/-- The number `c · 10^e` for an exponent that is not negative. Zero has any exponent. -/
def raised (c : Nat) (e : Int) : Nat := if c = 0 then 0 else c * Nat.pow 10 e.toNat

/-- Whether a finite decimal is a whole number. -/
def isWhole (c : Nat) (e : Int) : Bool := 0 ≤ e || c % Nat.pow 10 (places c e) == 0

/-- The whole part of `c · 10^e`. -/
def wholePart (c : Nat) (e : Int) : Nat :=
  if 0 ≤ e then raised c e else c / Nat.pow 10 (places c e)

/-- The whole number nearest to `c · 10^e`, halves going up. -/
def roundHalfUp (c : Nat) (e : Int) : Nat :=
  if 0 ≤ e then raised c e
  else (2 * c + Nat.pow 10 (places c e)) / (2 * Nat.pow 10 (places c e))

/-- A numerator and a denominator of `c · 10^e`. -/
def ratio (c : Nat) (e : Int) : Nat × Nat :=
  (c * Nat.pow 10 e.toNat, Nat.pow 10 (-e).toNat)

/-- The largest power of ten that a first digit can stand for. -/
def largestOrder : Int := 999999999999999999

/-- The smallest power of ten that a last digit can stand for. -/
def smallestExponent : Int := -1999999999999999997

/-- Whether a decimal is within the range of exponents. -/
def inRange : Decimal → Bool
  | finite _ c e => e + precision c - 1 ≤ largestOrder && smallestExponent ≤ e
  | _ => true

/-- Digits, and possibly a point with digits after it, and possibly a power of ten. -/
def magnitudeOfText? (s : Text) : Option (Nat × Int) :=
  let whole := s.takeWhile Numeral.isDigit
  let rest := s.dropWhile Numeral.isDigit
  let (fraction, rest) := match rest with
    | '.' :: r => (r.takeWhile Numeral.isDigit, r.dropWhile Numeral.isDigit)
    | r => ([], r)
  if whole.isEmpty ∧ fraction.isEmpty then none else
    let c := Numeral.ofText (whole ++ fraction)
    let places : Int := fraction.length
    match rest with
    | [] => some (c, -places)
    | marker :: power =>
      if marker ≠ 'e' ∧ marker ≠ 'E' then none else
        let (negative, power) := match power with
          | '-' :: r => (true, r)
          | '+' :: r => (false, r)
          | r => (false, r)
        if power.isEmpty ∨ power.any (!Numeral.isDigit ·) then none else
          let n : Int := Numeral.ofText power
          some (c, (if negative then -n else n) - places)

def dropSign : Text → Bool × Text
  | '-' :: r => (true, r)
  | '+' :: r => (false, r)
  | r => (false, r)

/-- The decimal a text stands for: a numeral, `inf`, `infinity`, or `nan` or `snan` with an
optional payload, in letters of either case. -/
def ofText? (s : Text) : Option Decimal :=
  let (negative, body) := dropSign s
  let word := body.map Char.toLower
  let quiet := "nan".toList
  let signaling := "snan".toList
  if word = "inf".toList ∨ word = "infinity".toList then some (infinite negative)
  else if quiet.isPrefixOf word ∧ (word.drop 3).all Numeral.isDigit then
    some (nan negative false (Numeral.ofText (word.drop 3)))
  else if signaling.isPrefixOf word ∧ (word.drop 4).all Numeral.isDigit then
    some (nan negative true (Numeral.ofText (word.drop 4)))
  else (magnitudeOfText? body).map fun (c, e) => finite negative c e

theorem raised_eq (c : Nat) (e : Int) : raised c e = c * Nat.pow 10 e.toNat := by
  unfold raised
  split
  · next h => rw [h, Nat.zero_mul]
  · rfl

theorem lt_pow_precision (c : Nat) : c < Nat.pow 10 (precision c) :=
  Numeral.lt_pow_length_digits 10 (by decide) c

theorem pow_precision_lt {c k : Nat} (h : precision c + 1 ≤ k) :
    10 * c < Nat.pow 10 (precision c + 1) ∧ Nat.pow 10 (precision c + 1) ≤ Nat.pow 10 k := by
  constructor
  · rw [show Nat.pow 10 (precision c + 1) = 10 * Nat.pow 10 (precision c) from Nat.pow_succ']
    exact Nat.mul_lt_mul_of_pos_left (lt_pow_precision c) (by decide)
  · exact Nat.pow_le_pow_right (by decide) h

theorem div_places (c : Nat) (e : Int) :
    c / Nat.pow 10 (places c e) = c / Nat.pow 10 (-e).toNat := by
  rcases Nat.le_total (-e).toNat (precision c + 1) with h | h
  · rw [places, Nat.min_eq_left h]
  · obtain ⟨h₁, h₂⟩ := pow_precision_lt h
    rw [places, Nat.min_eq_right h, Nat.div_eq_of_lt (by omega), Nat.div_eq_of_lt (by omega)]

theorem mod_places (c : Nat) (e : Int) :
    c % Nat.pow 10 (places c e) = c % Nat.pow 10 (-e).toNat := by
  rcases Nat.le_total (-e).toNat (precision c + 1) with h | h
  · rw [places, Nat.min_eq_left h]
  · obtain ⟨h₁, h₂⟩ := pow_precision_lt h
    rw [places, Nat.min_eq_right h, Nat.mod_eq_of_lt (by omega), Nat.mod_eq_of_lt (by omega)]

theorem half_places (c : Nat) (e : Int) :
    (2 * c + Nat.pow 10 (places c e)) / (2 * Nat.pow 10 (places c e)) =
      (2 * c + Nat.pow 10 (-e).toNat) / (2 * Nat.pow 10 (-e).toNat) := by
  rcases Nat.le_total (-e).toNat (precision c + 1) with h | h
  · rw [places, Nat.min_eq_left h]
  · obtain ⟨h₁, h₂⟩ := pow_precision_lt h
    rw [places, Nat.min_eq_right h, Nat.div_eq_of_lt (by omega), Nat.div_eq_of_lt (by omega)]

end Decimal

end SlotText
