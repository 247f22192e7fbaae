import SlotText.Numeral
import SlotText.Text.Printable

/-!
# Quoted texts

A text between quotes on one line. The quote is `'` unless the text has a `'` and no `"`.
A backslash, the quote, and the characters that cannot be shown are written as escapes, so that
no control character and no line break reaches the quoted form. Bytes are quoted in the same way
with everything outside of printable ASCII escaped.
-/
namespace SlotText.Text

/-- A number in exactly so many hexadecimal digits, or more if it needs them. -/
def hex (width n : Nat) : Text :=
  ((Numeral.digits 16 n).map Numeral.sign).leftpad width '0'

/-- The quote that goes around a text. -/
def quoteFor (s : Text) : Char :=
  if s.contains '\'' && !s.contains '"' then '"' else '\''

/-- A character by its number, in the shortest of three fixed forms. -/
def numbered (c : Char) : Text :=
  if c.toNat < 256 then '\\' :: 'x' :: hex 2 c.toNat
  else if c.toNat < 65536 then '\\' :: 'u' :: hex 4 c.toNat
  else '\\' :: 'U' :: hex 8 c.toNat

/-- The escapes that have a letter or a sign of their own. -/
def shortEscape? (quote c : Char) : Option Char :=
  if c = quote ∨ c = '\\' then some c
  else if c = '\n' then some 'n'
  else if c = '\r' then some 'r'
  else if c = '\t' then some 't'
  else none

def escaped (quote c : Char) : Text :=
  match shortEscape? quote c with
  | some e => ['\\', e]
  | none => if isPrintable c then [c] else numbered c

/-- A text in quotes. -/
def quoted (s : Text) : Text :=
  let quote := quoteFor s
  quote :: s.flatMap (escaped quote) ++ [quote]

/-- Bytes in quotes, marked by a leading `b`. -/
def quotedBytes (bytes : List UInt8) : Text :=
  let s := bytes.map fun b => Char.ofNat b.toNat
  let quote := quoteFor s
  let shown (c : Char) : Text := match shortEscape? quote c with
    | some e => ['\\', e]
    | none => if 32 ≤ c.toNat ∧ c.toNat < 127 then [c] else numbered c
  'b' :: quote :: s.flatMap shown ++ [quote]

end SlotText.Text
