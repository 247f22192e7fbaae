import SlotText.Value.Basic
import SlotText.Text.Blank
import SlotText.Text.Word

/-!
# Reading numbers

Numbers written out in full, as they are given for values. Blanks around a numeral are left out,
and digits of any script count. Underscores may group the digits: of whole numbers, floats and
fractions between two digits only, of decimals anywhere. A decimal is taken as it is written and
has to be within the range of exponents.
-/
namespace SlotText

namespace Text

def trimmed (s : Text) : Text :=
  ((s.dropWhile isBlank).reverse.dropWhile isBlank).reverse

/-- The digit from zero to nine that a decimal digit of another script stands for. -/
def plainDigit (c : Char) : Char :=
  match decimalZeros.find? fun first => first ≤ c.toNat && c.toNat ≤ first + 9 with
  | some first => Char.ofNat (48 + (c.toNat - first))
  | none => c

/-- A numeral without blanks around it and with plain digits. -/
def bare (s : Text) : Text := s.trimmed.map plainDigit

/-- Drops underscores after the character `before`. Each has to stand between two digits. -/
def ungroupedAfter (before : Char) : Text → Option Text
  | [] => some []
  | '_' :: c :: rest =>
    if Numeral.isDigit before ∧ Numeral.isDigit c then (ungroupedAfter c rest).map (c :: ·)
    else none
  | '_' :: [] => none
  | c :: rest => (ungroupedAfter c rest).map (c :: ·)

def ungrouped? (s : Text) : Option Text := ungroupedAfter ' ' s

end Text

/-- The digits of a numeral that consists of nothing else. -/
def Numeral.run? (s : Text) : Option Text :=
  s.ungrouped?.bind fun ds => if ds ≠ [] ∧ ds.all isDigit then some ds else none

/-- A whole number in base ten, with a limit on its digits. -/
def Numeral.readInt (s : Text) : Outcome Int :=
  let (negative, body) := Decimal.dropSign s.bare
  match run? body with
  | none => .error (.notAnInteger s)
  | some ds => do
    let n ← Numeral.read ds
    return if negative then -(n : Int) else n

def Binary64.read (s : Text) : Outcome Binary64 :=
  match s.bare.ungrouped?.bind ofText? with
  | none => .error (.notAFloat s)
  | some x => .ok x

def Decimal.read (s : Text) : Outcome Decimal :=
  match ofText? (s.bare.filter (· != '_')) with
  | none => .error .notADecimal
  | some d => if d.inRange then .ok d else .error .invalidDecimal

/-- A fraction, written as two whole numbers or as a decimal numeral. -/
def Value.readFraction (s : Text) : Outcome Value :=
  let (negative, body) := Decimal.dropSign s.bare
  let signed (n : Nat) : Int := if negative then -(n : Int) else n
  match Text.cut '/' body with
  | (top, some bottom) => match Numeral.run? top, Numeral.run? bottom with
    | some top, some bottom => do
      let n ← Numeral.read top
      let d ← Numeral.read bottom
      if d = 0 then .error (.zeroDenominator (signed n)) else return ratio (signed n) d
    | _, _ => .error (.notAFraction s)
  | (body, Option.none) => match body.ungrouped?.bind Decimal.magnitudeOfText? with
    | some (c, e) =>
      let (n, d) := Decimal.ratio c e
      .ok (ratio (signed n) d)
    | Option.none => .error (.notAFraction s)

end SlotText
