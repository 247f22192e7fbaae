import SlotText.Binary64

/-!
# The shortest decimal of a floating-point number

Every real number between two midpoints rounds to the same floating-point number. Among the
decimals in that interval those with the fewest digits are the shortest, and of these the one
nearest to the number is taken. Grids of one digit, two digits and so on up to seventeen are
tried in turn: if a grid has a point in the interval, one of the two neighbours of the number on
that grid is such a point. All comparisons are between natural numbers.
-/
namespace SlotText.Binary64

/-- The power of ten at or below a positive ratio. -/
def decimalOrder (num den : Nat) : Int :=
  if den ≤ num then (Numeral.digits 10 (num / den)).length - 1
  else -(Numeral.digits 10 ((den - 1) / num)).length

/-- The reals that round to `m · 2^q`, in quarters of a unit in the last place: the ends and
whether they belong to it. Just below a power of two the floats are twice as dense. -/
structure Interval where
  low : Nat
  middle : Nat
  high : Nat
  power : Int
  closed : Bool

def interval (x : Binary64) : Interval where
  low := 4 * x.significand - (if x.fractionField = 0 ∧ 1 < x.exponentField then 1 else 2)
  middle := 4 * x.significand
  high := 4 * x.significand + 2
  power := x.exponent - 2
  closed := x.significand % 2 == 0

/-- A quarter count on the scale that is common to it and to the multiples of `10^u`. -/
def Interval.scaled (i : Interval) (u : Int) (quarters : Nat) : Nat :=
  quarters * Nat.pow 2 i.power.toNat * Nat.pow 10 (-u).toNat

/-- The multiple `c · 10^u` on the common scale. -/
def Interval.grid (i : Interval) (u : Int) (c : Nat) : Nat :=
  c * Nat.pow 10 u.toNat * Nat.pow 2 (-i.power).toNat

def Interval.contains (i : Interval) (u : Int) (c : Nat) : Bool :=
  let g := i.grid u c
  let low := i.scaled u i.low
  let high := i.scaled u i.high
  if i.closed then low ≤ g && g ≤ high else low < g && g < high

/-- The multiple of `10^u` in the interval that is nearest to its middle, the even one of two
that are equally near. -/
def Interval.nearest? (i : Interval) (u : Int) : Option Nat :=
  let middle := i.scaled u i.middle
  let down := middle / i.grid u 1
  let up := down + 1
  match i.contains u down, i.contains u up with
  | false, false => none
  | true, false => some down
  | false, true => some up
  | true, true =>
    let below := middle - i.grid u down
    let above := i.grid u up - middle
    if below < above then some down
    else if above < below then some up
    else if down % 2 = 0 then some down else some up

/-- The first grid with a point in the interval, from the power `u` downwards. -/
def Interval.search (i : Interval) : Nat → Int → Nat × Int
  | 0, u => (i.scaled u i.middle / i.grid u 1, u)
  | finer + 1, u => match i.nearest? u with
    | some c => (c, u)
    | none => i.search finer (u - 1)

/-- Takes zeros off the end of a coefficient and counts them in the exponent. -/
def withoutZeros : Nat → Nat → Int → Nat × Int
  | 0, c, e => (c, e)
  | fuel + 1, c, e => if c ≠ 0 ∧ c % 10 = 0 then withoutZeros fuel (c / 10) (e + 1) else (c, e)

/-- Coefficient and exponent of the shortest decimal of a finite number, without its sign. -/
def shortest (x : Binary64) : Nat × Int :=
  if x.significand = 0 then (0, 0) else
    let (c, u) := x.interval.search 17 (decimalOrder x.ratio.1 x.ratio.2)
    withoutZeros 17 c u

/-- Whether the digits of a shortest decimal are written around a point: the point must stand at
most three zeros in front of the first digit and at most sixteen places after it. -/
def isPositional (c : Nat) (e : Int) : Bool :=
  let place := e + (Numeral.ofNat c).length
  place ≤ 16 && -4 < place

/-- An exponent with its sign and at least two digits. -/
def exponentText (e : Int) : Text :=
  (if e < 0 then '-' else '+') :: (Numeral.ofNat e.natAbs).leftpad 2 '0'

/-- The shortest decimal written out. A whole number is marked by `.0` if `marked` is set and no
exponent shows already. -/
def written (x : Binary64) (marked : Bool) : Text :=
  if x.isNaN then "nan".toList
  else if !x.isFinite then Decimal.signText x.isNegative ++ "inf".toList
  else
    let (c, e) := x.shortest
    let ds := Numeral.ofNat c
    let place := e + ds.length
    Decimal.signText x.isNegative ++
      if isPositional c e then
        Decimal.placePoint ds place ++ (if marked && 0 ≤ e then ".0".toList else [])
      else Decimal.placePoint ds 1 ++ 'e' :: exponentText (place - 1)

/-- The text that reads back as the same number. -/
def text (x : Binary64) : Text := x.written true

/-- The decimal that the text of a number is a numeral of. -/
def toDecimal (x : Binary64) : Decimal :=
  if x.isNaN then .nan false false 0
  else if !x.isFinite then .infinite x.isNegative
  else
    let (c, e) := x.shortest
    if isPositional c e ∧ 0 ≤ e then .finite x.isNegative (c * Nat.pow 10 (e.toNat + 1)) (-1)
    else .finite x.isNegative c e

/-- Rounds a magnitude to two decimal places, halves of the exact value going to even. -/
def roundToHundredths (num den : Nat) : Binary64 :=
  ofRatio false (roundHalfEven (num * 100) den) 100

end SlotText.Binary64
