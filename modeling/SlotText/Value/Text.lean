import SlotText.Value.Basic
import SlotText.Binary64.Shortest

/-!
# The texts of a value

`shown` is the form that tells values of different types apart: texts are quoted, decimals and
fractions carry the name of their type, containers show their items. `plain` is the natural
form; it differs from `shown` for texts, decimals, fractions and formatted texts only. Both fail
on a whole number with too many digits and on a formatted text that cannot be rendered, wherever
it is inside the value, and then with the first such failure from the left.
-/
namespace SlotText.Value

/-- A part of a complex number with its sign written out. -/
def signedPart (x : Binary64) : Text :=
  match x.written false with
  | '-' :: s => '-' :: s
  | s => '+' :: s

/-- The real part is left out if it is zero and not negative. -/
def complexText (re im : Binary64) : Text :=
  if re.bits = 0 then im.written false ++ ['j']
  else '(' :: re.written false ++ signedPart im ++ ['j', ')']

def comma : Text := [',', ' ']

/-- Items between brackets; a single item of a tuple keeps its comma. -/
def tupleText : List Text → Text
  | [s] => '(' :: s ++ [',', ')']
  | ss => '(' :: List.intercalate comma ss ++ [')']

def setText : List Text → Text
  | [] => "set()".toList
  | ss => '\x7b' :: List.intercalate comma ss ++ ['\x7d']

def frozenSetText : List Text → Text
  | [] => "frozenset()".toList
  | ss => "frozenset(\x7b".toList ++ List.intercalate comma ss ++ ['\x7d', ')']

/-- A fraction by its two numbers. -/
def fractionText (numerator : Int) (denominator : Nat) : Outcome Text := do
  let n ← Numeral.write numerator
  let d ← Numeral.write denominator
  return "Fraction(".toList ++ n ++ comma ++ d ++ [')']

mutual

/-- The form that tells values of different types apart. -/
def shown : Value → Outcome Text
  | none => .ok "None".toList
  | bool b => .ok (if b then "True".toList else "False".toList)
  | int n => Numeral.write n
  | float x => .ok x.text
  | decimal d => .ok ("Decimal('".toList ++ d.text ++ "')".toList)
  | fraction n d => fractionText n d
  | complex re im => .ok (complexText re im)
  | bytes bs => .ok (Text.quotedBytes bs)
  | text s => .ok (Text.quoted s)
  | list xs => do return '[' :: List.intercalate comma (← shownAll xs) ++ [']']
  | tuple xs => do return tupleText (← shownAll xs)
  | dict es => do return '\x7b' :: List.intercalate comma (← shownEntries es) ++ ['\x7d']
  | set xs => do return setText (← shownAll xs)
  | frozenSet xs => do return frozenSetText (← shownAll xs)
  | record name fields => do
    return name ++ '(' :: List.intercalate comma (← shownFields fields) ++ [')']
  | ref target => do return "ref(".toList ++ (← shown target) ++ [')']
  | formatted plain _ => do return "FormattedString(".toList ++ Text.quoted (← plain) ++ [')']

def shownAll : List Value → Outcome (List Text)
  | [] => .ok []
  | v :: vs => do
    let s ← shown v
    let ss ← shownAll vs
    return s :: ss

def shownEntries : List (Value × Value) → Outcome (List Text)
  | [] => .ok []
  | (k, v) :: es => do
    let key ← shown k
    let s ← shown v
    let ss ← shownEntries es
    return (key ++ ':' :: ' ' :: s) :: ss

def shownFields : List (Text × Value) → Outcome (List Text)
  | [] => .ok []
  | (name, v) :: fs => do
    let s ← shown v
    let ss ← shownFields fs
    return (name ++ '=' :: s) :: ss

end

/-- The natural form of a value. -/
def plain : Value → Outcome Text
  | text s => .ok s
  | decimal d => .ok d.text
  | fraction n d => do
    let top ← Numeral.write n
    if d = 1 then return top
    let bottom ← Numeral.write d
    return top ++ '/' :: bottom
  | formatted p _ => p
  | v => v.shown

end SlotText.Value
