import SlotText.Diagnostic.Report
import SlotText.Text.Quoted

/-!
# Failures

Every way in which an operation of this library can end without a result, by its cause. The
first is a fault of a template, which has a diagnostic; the others concern numbers beyond a
limit, texts that are no numerals, positions outside of a text, and values of a type that an
operation does not accept. The wording of all of them is in `message`.
-/
namespace SlotText

/-- The closed vocabularies a name can be looked up in. -/
inductive Vocabulary where
  | alignment
  | signPolicy
  | conversion
  | kind
  | layout
  deriving DecidableEq, Repr

namespace Vocabulary

def label : Vocabulary → Text
  | alignment => "Alignment".toList
  | signPolicy => "SignMode".toList
  | conversion => "FormatType".toList
  | kind => "ValueKind".toList
  | layout => "OutputFormat".toList

end Vocabulary

inductive Failure where
  /-- The template cannot be rendered with its values. -/
  | fault (f : Fault)
  | negativeSlot (slot : Int)
  | negativeOffset (offset : Int)
  | noSegment
  | segmentCount (segments values : Nat)
  /-- A value that holds no segments and values was given for a template. -/
  | notATemplate (typeName : Text)
  | notIterable (typeName : Text)
  /-- A segment that is not a text stands where a specifier is looked for. -/
  | notSearchable (typeName : Text)
  | bytesSearched
  /-- A segment that is not a text would be fused with the one before it. -/
  | notFusible (typeName : Text)
  /-- The first segment, which begins the output, is not a text. -/
  | notJoinable (typeName : Text)
  | unhashable (typeName : Text)
  | signalingKey
  /-- A whole number with more digits than are written in base ten. -/
  | numeralTooLong
  | numeralTooLongToRead (digits : Nat)
  /-- More copies of the fill than the largest index. -/
  | fillCountTooLarge
  /-- More characters in the copies of the fill than the largest index. -/
  | fillTooLong
  /-- A count of digits beyond the largest index. -/
  | digitCountTooLarge
  | infiniteRatio
  | undefinedRatio
  | infiniteInteger
  /-- A decimal out of range, or one that is no number where a number is needed. -/
  | invalidDecimal
  | notADecimal
  | notAnInteger (s : Text)
  | notAFloat (s : Text)
  | notAFraction (s : Text)
  | zeroDenominator (numerator : Int)
  /-- The quotient of a fraction lies beyond every float. -/
  | quotientTooLarge
  | remainderTooLong
  | decimalTooLarge
  /-- Values of a type that is not compared with numbers. -/
  | notOrdered (typeName : Text)
  | notConvertible (typeName : Text)
  | noMagnitude (typeName : Text)
  /-- A digit beyond the last sign. -/
  | noDigitSign
  | baseZero
  | endOfSpecifier (position : Int)
  | positionOutside
  | slotOutside
  | indexTooLarge
  | capacityNotPositive
  | unknownName (vocabulary : Vocabulary) (name : Text)
  deriving DecidableEq, Repr

namespace Failure

/-- How much is shown of a text that is no whole number. -/
def shownLiteral : Nat := 200

def message : Failure → Text
  | fault f => f.message
  | negativeSlot i => "Diagnostic.slot_index must be >= 0, got ".toList ++ Numeral.ofInt i
  | negativeOffset i => "Diagnostic.offset must be >= 0, got ".toList ++ Numeral.ofInt i
  | noSegment => "Template needs at least one literal segment".toList
  | segmentCount m n =>
    "Template needs exactly one more literal segment than values, got ".toList ++
      Numeral.ofNat m ++ " segment(s) and ".toList ++ Numeral.ofNat n ++ " value(s)".toList
  | notATemplate name =>
    "Expected a Template or an object with strings and values, got ".toList ++ name
  | notIterable name => '\'' :: name ++ "' object is not iterable".toList
  | notSearchable name => '\'' :: name ++ "' object has no attribute 'startswith'".toList
  | bytesSearched =>
    "startswith first arg must be bytes or a tuple of bytes, not str".toList
  | notFusible name =>
    "can only concatenate str (not \"".toList ++ name ++ "\") to str".toList
  | notJoinable name =>
    "sequence item 0: expected str instance, ".toList ++ name ++ " found".toList
  | unhashable name => "unhashable type: '".toList ++ name ++ ['\'']
  | signalingKey => "Cannot hash a signaling NaN value".toList
  | numeralTooLong =>
    "Exceeds the limit (4300 digits) for integer string conversion; use ".toList ++
      "sys.set_int_max_str_digits() to increase the limit".toList
  | numeralTooLongToRead n =>
    "Exceeds the limit (4300 digits) for integer string conversion: value has ".toList ++
      Numeral.ofNat n ++
      " digits; use sys.set_int_max_str_digits() to increase the limit".toList
  | fillCountTooLarge => "cannot fit 'int' into an index-sized integer".toList
  | fillTooLong => "repeated string is too long".toList
  | digitCountTooLarge => "Python int too large to convert to C ssize_t".toList
  | infiniteRatio => "cannot convert Infinity to integer ratio".toList
  | undefinedRatio => "cannot convert NaN to integer ratio".toList
  | infiniteInteger => "cannot convert Infinity to integer".toList
  | invalidDecimal => "[<class 'decimal.InvalidOperation'>]".toList
  | notADecimal => "[<class 'decimal.ConversionSyntax'>]".toList
  | notAnInteger s =>
    "invalid literal for int() with base 10: ".toList ++ (Text.quoted s).take shownLiteral
  | notAFraction s => "Invalid literal for Fraction: ".toList ++ Text.quoted s
  | notAFloat s => "could not convert string to float: ".toList ++ Text.quoted s
  | zeroDenominator n => "Fraction(".toList ++ Numeral.ofInt n ++ ", 0)".toList
  | quotientTooLarge => "integer division result too large for a float".toList
  | remainderTooLong => "[<class 'decimal.DivisionImpossible'>]".toList
  | decimalTooLarge => "[<class 'decimal.Overflow'>]".toList
  | notOrdered name =>
    "'<' not supported between instances of '".toList ++ name ++ "' and 'int'".toList
  | notConvertible name =>
    "conversion from ".toList ++ name ++ " to Decimal is not supported".toList
  | noMagnitude name => "bad operand type for abs(): '".toList ++ name ++ ['\'']
  | noDigitSign => "string index out of range".toList
  | baseZero => "integer division or modulo by zero".toList
  | endOfSpecifier i => "Unexpected end of specifier at position ".toList ++ Numeral.ofInt i
  | positionOutside => "string index out of range".toList
  | slotOutside => "tuple index out of range".toList
  | indexTooLarge => "cannot fit 'int' into an index-sized integer".toList
  | capacityNotPositive => "maxsize must be positive".toList
  | unknownName v name => Text.quoted name ++ " is not a valid ".toList ++ v.label

def ofDiagnostic (d : Diagnostic) : Failure := .fault (.ofDiagnostic d)

end Failure

/-- The result of an operation that can fail. -/
abbrev Outcome (α : Type) := Except Failure α

/-- The layout with a label. -/
def Layout.ofLabel (s : Text) : Outcome Layout :=
  match [detailed, brief, json].find? (·.label == s) with
  | some l => .ok l
  | none => .error (.unknownName .layout s)

/-- The most digits that a whole number in base ten may have in a text. -/
def Numeral.longest : Nat := 4300

/-- A whole number in base ten, if it is not too long. -/
def Numeral.write (n : Int) : Outcome Text :=
  let s := Numeral.ofNat n.natAbs
  if Numeral.longest < s.length then .error .numeralTooLong else .ok (Numeral.ofInt n)

/-- A number that a message tells: a position in a list, which is never too long to be written, or a
number from elsewhere. -/
inductive Index where
  | position (i : Int)
  | number (i : Int)
  deriving DecidableEq, Repr

namespace Index

def toInt : Index → Int
  | position i => i
  | number i => i

def write : Index → Outcome Text
  | position i => .ok (Numeral.ofInt i)
  | number i => Numeral.write i

end Index

/-- The whole number a run of digits stands for, if the run is not too long. -/
def Numeral.read (ds : Text) : Outcome Nat :=
  if Numeral.longest < ds.length then .error (.numeralTooLongToRead ds.length)
  else .ok (Numeral.ofText ds)

/-- Slots and offsets count from zero. A negative one is refused with its numeral. -/
def Diagnostic.place (refusal : Int → Failure) : Option Int → Outcome (Option Nat)
  | none => .ok none
  | some (.ofNat n) => .ok (some n)
  | some (.negSucc n) => do
    let _ ← Numeral.write (.negSucc n)
    throw (refusal (.negSucc n))

/-- A diagnostic, provided that its place is one. -/
def Diagnostic.located (d : Diagnostic) (slot offset : Option Int) : Outcome Diagnostic := do
  let slot ← place .negativeSlot slot
  let offset ← place .negativeOffset offset
  return { d with slot, offset }

/-- The largest index, one less than the 63rd power of two. -/
def Text.longest : Int := 9223372036854775807

/-- Whether a number can be an index or a count, apart from any text. -/
def Text.isIndex (i : Int) : Bool := -Text.longest - 1 ≤ i && i ≤ Text.longest

end SlotText
