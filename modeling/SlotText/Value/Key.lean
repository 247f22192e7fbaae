import SlotText.Value.Basic

/-!
# Keys

Which values can be the keys of a dictionary or the items of a set, and which of them are one
key. Lists, dictionaries, sets and records are no keys, and neither is whatever contains one.
Numbers are compared by what they stand for, whatever their type is, and formatted texts by their
plain form, also with texts. A number that is undefined is not the same key as any other, not even
as itself.

A finite number is brought into the form `numerator / denominator · 10^exponent`, in which the
denominator has no divisor in common with ten and the numerator is no multiple of ten. Two numbers
are equal when their forms are, so exponents need not be worked out, however large they are.
-/
namespace SlotText

/-- A number by what it stands for. -/
inductive Quantity where
  | finite (numerator : Int) (denominator : Nat) (exponent : Int)
  | infinite (negative : Bool)
  deriving DecidableEq, Repr

namespace Quantity

/-- Moves what a denominator has in common with ten into the exponent. -/
def clear : Nat → Int → Nat → Int → Int × Nat × Int
  | 0, num, den, e => (num, den, e)
  | fuel + 1, num, den, e =>
    let g := den.gcd 10
    if g = 1 then (num, den, e) else clear fuel (num * (10 / g : Nat)) (den / g) (e - 1)

/-- Moves the zeros at the end of a numerator into the exponent. -/
def trim : Nat → Int → Int → Int × Int
  | 0, num, e => (num, e)
  | fuel + 1, num, e => if num % 10 = 0 then trim fuel (num / 10) (e + 1) else (num, e)

/-- The number `num / den · 10^e`. Every round halves the denominator at least, or takes a digit
off the numerator, which bounds their count. -/
def ofRatio (num : Int) (den : Nat) (e : Int) : Quantity :=
  if num = 0 then finite 0 1 0 else
    let (num, den, e) := clear (den.log2 + 1) num den e
    let (num, e) := trim (num.natAbs.log2 + 1) num e
    finite num den e

def zero : Quantity := finite 0 1 0

def signed (negative : Bool) (n : Nat) : Int := if negative then -(n : Int) else n

def ofFloat? (x : Binary64) : Option Quantity :=
  if x.isNaN then none
  else if x.isFinite then some (ofRatio (signed x.isNegative x.ratio.1) x.ratio.2 0)
  else some (infinite x.isNegative)

def ofDecimal? : Decimal → Option Quantity
  | .finite negative c e => some (ofRatio (signed negative c) 1 e)
  | .infinite negative => some (infinite negative)
  | .nan .. => none

end Quantity

namespace Value

/-- What a number stands for, by its real and its imaginary part. -/
def quantity? : Value → Option (Quantity × Quantity)
  | bool b => some (.ofRatio (if b then 1 else 0) 1 0, .zero)
  | int n => some (.ofRatio n 1 0, .zero)
  | float x => (Quantity.ofFloat? x).map (·, .zero)
  | decimal d => (Quantity.ofDecimal? d).map (·, .zero)
  | fraction n d => some (.ofRatio n d 0, .zero)
  | complex re im =>
    (Quantity.ofFloat? re).bind fun re => (Quantity.ofFloat? im).map fun im => (re, im)
  | _ => Option.none

/-- The characters of a text, formatted or not. -/
def characters? : Value → Option Text
  | text s => some s
  | formatted (.ok s) _ => some s
  | _ => Option.none

mutual

/-- Refuses a value that cannot be a key. -/
def checkKey : Value → Outcome Unit
  | decimal (.nan _ true _) => .error .signalingKey
  | list xs => .error (.unhashable (list xs).typeName)
  | dict es => .error (.unhashable (dict es).typeName)
  | set xs => .error (.unhashable (set xs).typeName)
  | record name _ => .error (.unhashable name)
  | tuple xs => checkKeys xs
  | ref target => checkKey target
  | formatted plain _ => plain.map fun _ => ()
  | _ => .ok ()

/-- Refuses values with the first of them that cannot be a key. -/
def checkKeys : List Value → Outcome Unit
  | [] => .ok ()
  | v :: vs => do
    checkKey v
    checkKeys vs

end

mutual

/-- Whether two values that can be keys are one key. -/
def sameKey : Value → Value → Bool
  | none, none => true
  | int m, int n => m == n
  | text s, text t => s == t
  | bytes a, bytes b => a == b
  | tuple xs, tuple ys => sameKeys xs ys
  | frozenSet xs, frozenSet ys => sameKeys xs ys
  | ref a, ref b => sameKey a b
  | a, b => match a.quantity?, b.quantity? with
    | some p, some q => p == q
    | _, _ => match a.characters?, b.characters? with
      | some s, some t => s == t
      | _, _ => false

def sameKeys : List Value → List Value → Bool
  | [], [] => true
  | x :: xs, y :: ys => sameKey x y && sameKeys xs ys
  | _, _ => false

end

/-- Entries with one more. An entry that has the key already keeps its key and its place. -/
def insertEntry (entries : List (Value × Value)) (key v : Value) :
    Outcome (List (Value × Value)) := do
  checkKey key
  return if entries.any fun e => e.1.sameKey key then
      entries.map fun e => if e.1.sameKey key then (e.1, v) else e
    else entries ++ [(key, v)]

/-- Items with one more, unless it is among them. -/
def insertItem (items : List Value) (v : Value) : Outcome (List Value) := do
  checkKey v
  return if items.any (·.sameKey v) then items else items ++ [v]

end Value

end SlotText
