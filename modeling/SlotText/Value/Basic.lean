import SlotText.Failure
import SlotText.Binary64

/-!
# Values

What a slot can hold: numbers of several sorts, texts, bytes, truth values, containers of
values, records with named fields, references to other slots, and formatted texts. A formatted
text is seen from outside only through its two renderings, each of which is a text or the
failure that rendering ends with, so these two outcomes are what is kept of it.

Only whole numbers, floats and decimals take part in numeric conversion. A truth value does not,
although other operations count it as zero or one.
-/
namespace SlotText

inductive Value where
  | none
  | bool (b : Bool)
  | int (n : Int)
  | float (x : Binary64)
  | decimal (d : Decimal)
  | fraction (numerator : Int) (denominator : Nat)
  | complex (re im : Binary64)
  | bytes (bs : List UInt8)
  | text (s : Text)
  | list (items : List Value)
  | tuple (items : List Value)
  | dict (entries : List (Value × Value))
  | set (items : List Value)
  | frozenSet (items : List Value)
  | record (name : Text) (fields : List (Text × Value))
  | ref (target : Value)
  | formatted (plain decorated : Outcome Text)
  deriving Inhabited

/-- The numbers that numeric conversions apply to. -/
inductive Number where
  | int (n : Int)
  | float (x : Binary64)
  | decimal (d : Decimal)
  deriving DecidableEq, Repr

/-- How a value is treated by conversion. -/
inductive Kind where
  | integer
  | number
  | text
  | structural
  deriving DecidableEq, Repr

namespace Kind

def label : Kind → Text
  | integer => "integer".toList
  | number => "number".toList
  | text => "text".toList
  | structural => "structural".toList

def all : List Kind := [integer, number, text, structural]

def ofLabel (s : Text) : Outcome Kind :=
  match all.find? (·.label == s) with
  | some k => .ok k
  | none => .error (.unknownName .kind s)

end Kind

namespace Number

def isFinite : Number → Bool
  | int _ => true
  | float x => x.isFinite
  | decimal d => d.isFinite

def toValue : Number → Value
  | int n => .int n
  | float x => .float x
  | decimal d => .decimal d

end Number

namespace Value

def number? : Value → Option Number
  | int n => some (.int n)
  | float x => some (.float x)
  | decimal d => some (.decimal d)
  | _ => Option.none

def kind : Value → Kind
  | int _ => .integer
  | float _ => .number
  | decimal _ => .number
  | text _ => .text
  | _ => .structural

def isNumeric (v : Value) : Bool := v.number?.isSome

/-- False only for the numbers that are infinite or undefined. -/
def isFinite (v : Value) : Bool := v.number?.all Number.isFinite

/-- A fraction in lowest terms. -/
def ratio (numerator : Int) (denominator : Nat) : Value :=
  let d := numerator.natAbs.gcd denominator
  fraction (numerator / d) (denominator / d)

/-- The name of a value's type. -/
def typeName : Value → Text
  | none => "NoneType".toList
  | bool _ => "bool".toList
  | int _ => "int".toList
  | float _ => "float".toList
  | decimal _ => "Decimal".toList
  | fraction .. => "Fraction".toList
  | complex .. => "complex".toList
  | bytes _ => "bytes".toList
  | text _ => "str".toList
  | list _ => "list".toList
  | tuple _ => "tuple".toList
  | dict _ => "dict".toList
  | set _ => "set".toList
  | frozenSet _ => "frozenset".toList
  | record name _ => name
  | ref _ => "Ref".toList
  | formatted .. => "FormattedString".toList

/-- The name of a value's type, with the module of decimals in front of theirs. -/
def fullTypeName : Value → Text
  | decimal _ => "decimal.Decimal".toList
  | v => v.typeName

/-- What a value holds, one after another, if it is a sequence of values. -/
def items? : Value → Option (List Value)
  | list xs => some xs
  | tuple xs => some xs
  | set xs => some xs
  | frozenSet xs => some xs
  | dict es => some (es.map (·.1))
  | text s => some (s.map fun c => text [c])
  | bytes bs => some (bs.map fun b => int b.toNat)
  | _ => Option.none

/-- The field of a record. -/
def field? (v : Value) (name : Text) : Option Value :=
  match v with
  | record _ fields => (fields.find? (·.1 == name)).map (·.2)
  | _ => Option.none

theorem number?_toValue (n : Number) : n.toValue.number? = some n := by
  cases n <;> rfl

end Value

end SlotText
