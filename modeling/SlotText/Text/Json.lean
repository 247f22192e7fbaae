import SlotText.Failure

/-!
# JSON

The part of JSON that a diagnostic is written in: an object whose members are texts, whole
numbers and lists of whole numbers. Members are separated by a comma and a blank, a name and
its value by a colon and a blank. Texts are escaped only where JSON demands it, and numbers are
written in base ten, so that one that is too long for this has no JSON.
-/
namespace SlotText

/-- What a member of an object can be. -/
inductive JsonItem where
  | text (s : Text)
  | number (n : Int)
  | numbers (ns : List Int)
  deriving DecidableEq, Repr

namespace JsonItem

def escaped (c : Char) : Text :=
  if c = '"' then ['\\', '"']
  else if c = '\\' then ['\\', '\\']
  else if c = '\n' then ['\\', 'n']
  else if c = '\r' then ['\\', 'r']
  else if c = '\t' then ['\\', 't']
  else if c = '\x08' then ['\\', 'b']
  else if c = '\x0c' then ['\\', 'f']
  else if c.toNat < 32 then '\\' :: 'u' :: Text.hex 4 c.toNat
  else [c]

def writeText (s : Text) : Text := '"' :: s.flatMap escaped ++ ['"']

def write : JsonItem → Outcome Text
  | text s => .ok (writeText s)
  | number n => Numeral.write n
  | numbers ns => do
    let numerals ← ns.mapM Numeral.write
    return '[' :: List.intercalate ", ".toList numerals ++ [']']

def writeMember (member : Text × JsonItem) : Outcome Text := do
  let value ← member.2.write
  return writeText member.1 ++ ':' :: ' ' :: value

def writeObject (members : List (Text × JsonItem)) : Outcome Text := do
  let parts ← members.mapM writeMember
  return '\x7b' :: List.intercalate ", ".toList parts ++ ['\x7d']

end JsonItem

end SlotText
