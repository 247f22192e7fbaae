import SlotText.Proofs.Numeral.Expansion

/-!
# A reader for JSON

A reader of JSON texts as a whole, written from the grammar of the format and not from any writer.
Each step takes what it reads off the front of a text and gives it back with what follows; a text
that does not fit is refused. Numbers are read as rational numbers. A text in quotes has no raw
control characters, and a character beyond the first 65536 is given by a pair of escapes. An object
is read as the list of its members, so that a name that is there twice remains visible.

Every step takes at least one character, so that the length of a text suffices as fuel.
-/
namespace SlotText

inductive JsonValue where
  | null
  | bool (b : Bool)
  | number (x : ℚ)
  | text (s : Text)
  | array (items : List JsonValue)
  | object (members : List (Text × JsonValue))

namespace JsonValue

open Numeral (isDigit)

def isSpace (c : Char) : Bool := c = ' ' ∨ c = '\t' ∨ c = '\n' ∨ c = '\r'

/-- What follows the white space in front. -/
def skip (s : Text) : Text := s.dropWhile isSpace

/-- Digits, at least one. -/
def readDigits (s : Text) : Option (Text × Text) :=
  if s.takeWhile isDigit = [] then none else some (s.takeWhile isDigit, s.dropWhile isDigit)

/-- The whole part begins with a zero only if it is zero. -/
def readWhole (s : Text) : Option (Text × Text) := do
  let (ds, s) ← readDigits s
  if ds.head? = some '0' ∧ ds ≠ ['0'] then none else some (ds, s)

def readFraction : Text → Option (Text × Text)
  | '.' :: s => readDigits s
  | s => some ([], s)

def readSign : Text → Bool × Text
  | '-' :: s => (true, s)
  | '+' :: s => (false, s)
  | s => (false, s)

def readPower : Text → Option (Int × Text)
  | [] => some (0, [])
  | c :: s =>
    if c = 'e' ∨ c = 'E' then do
      let (negative, s) := readSign s
      let (ds, s) ← readDigits s
      some (if negative then -(Numeral.ofText ds : Int) else Numeral.ofText ds, s)
    else some (0, c :: s)

def readMagnitude (s : Text) : Option (ℚ × Text) := do
  let (whole, s) ← readWhole s
  let (fraction, s) ← readFraction s
  let (power, s) ← readPower s
  some (Numeral.ofText (whole ++ fraction) * 10 ^ (power - fraction.length), s)

def readNumber : Text → Option (ℚ × Text)
  | '-' :: s => do
    let (x, s) ← readMagnitude s
    some (-x, s)
  | s => readMagnitude s

def hexDigit? (c : Char) : Option Nat :=
  if '0' ≤ c ∧ c ≤ '9' then some (c.toNat - 48)
  else if 'a' ≤ c ∧ c ≤ 'f' then some (c.toNat - 87)
  else if 'A' ≤ c ∧ c ≤ 'F' then some (c.toNat - 55)
  else none

/-- Four hexadecimal digits. -/
def readUnit : Text → Option (Nat × Text)
  | a :: b :: c :: d :: s => do
    let ds ← [a, b, c, d].mapM hexDigit?
    some (Numeral.value 16 ds, s)
  | _ => none

/-- A character by its number, or by the two halves of a pair. -/
def readNumbered (s : Text) : Option (Char × Text) := do
  let (n, s) ← readUnit s
  if 0xd800 ≤ n ∧ n < 0xdc00 then
    match s with
    | '\\' :: 'u' :: s => do
      let (low, s) ← readUnit s
      if 0xdc00 ≤ low ∧ low < 0xe000 then
        some (Char.ofNat (0x10000 + 0x400 * (n - 0xd800) + (low - 0xdc00)), s)
      else none
    | _ => none
  else if 0xdc00 ≤ n ∧ n < 0xe000 then none
  else some (Char.ofNat n, s)

/-- What an escape without a number stands for. -/
def shortEscape? (c : Char) : Option Char :=
  if c = '"' ∨ c = '\\' ∨ c = '/' then some c
  else if c = 'b' then some '\x08'
  else if c = 'f' then some '\x0c'
  else if c = 'n' then some '\n'
  else if c = 'r' then some '\r'
  else if c = 't' then some '\t'
  else none

/-- An escape after its backslash. -/
def readEscape : Text → Option (Char × Text)
  | [] => none
  | c :: s => if c = 'u' then readNumbered s else (shortEscape? c).map fun c => (c, s)

/-- A text after its opening quote, up to its closing quote. -/
def readText : Nat → Text → Option (Text × Text)
  | 0, _ => none
  | _ + 1, [] => none
  | fuel + 1, c :: s =>
    if c = '"' then some ([], s)
    else if c = '\\' then do
      let (c, s) ← readEscape s
      let (cs, s) ← readText fuel s
      some (c :: cs, s)
    else if c.toNat < 32 then none
    else do
      let (cs, s) ← readText fuel s
      some (c :: cs, s)

section

variable {α : Type} (item : Text → Option (α × Text)) (close : Char)

/-- Items with commas between them, at least one, up to the closing sign. -/
def readItems : Nat → Text → Option (List α × Text)
  | 0, _ => none
  | fuel + 1, s => do
    let (x, s) ← item (skip s)
    match skip s with
    | [] => none
    | c :: s =>
      if c = close then some ([x], s)
      else if c = ',' then do
        let (xs, s) ← readItems fuel s
        some (x :: xs, s)
      else none

/-- Items with commas between them, possibly none, up to the closing sign. -/
def readList (fuel : Nat) (s : Text) : Option (List α × Text) :=
  match skip s with
  | [] => none
  | c :: rest => if c = close then some ([], rest) else readItems item close fuel s

end

/-- A name, a colon and a value. -/
def readMember (name : Text → Option (Text × Text)) (value : Text → Option (JsonValue × Text)) :
    Text → Option ((Text × JsonValue) × Text)
  | '"' :: s => do
    let (key, s) ← name s
    match skip s with
    | ':' :: s => do
      let (x, s) ← value (skip s)
      some ((key, x), s)
    | _ => none
  | _ => none

/-- The value that a word stands for. -/
def readWord (s : Text) : Option (JsonValue × Text) :=
  if "null".toList <+: s then some (null, s.drop 4)
  else if "true".toList <+: s then some (bool true, s.drop 4)
  else if "false".toList <+: s then some (bool false, s.drop 5)
  else none

/-- A value without white space around it. -/
def read : Nat → Text → Option (JsonValue × Text)
  | 0, _ => none
  | _ + 1, [] => none
  | fuel + 1, c :: s =>
    if c = '"' then do
      let (t, s) ← readText fuel s
      some (text t, s)
    else if c = '[' then do
      let (xs, s) ← readList (read fuel) ']' fuel s
      some (array xs, s)
    else if c = '\x7b' then do
      let (ms, s) ← readList (readMember (readText fuel) (read fuel)) '\x7d' fuel s
      some (object ms, s)
    else if c = '-' ∨ isDigit c then do
      let (x, s) ← readNumber (c :: s)
      some (number x, s)
    else readWord (c :: s)

/-- The value that a whole text is, with white space around it at most. -/
def ofText? (s : Text) : Option JsonValue := do
  let (x, rest) ← read (s.length + 1) (skip s)
  if skip rest = [] then some x else none

end JsonValue

end SlotText
