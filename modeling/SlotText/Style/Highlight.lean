import SlotText.Style.Basic
import SlotText.Text.Pattern

/-!
# Highlighting

Which parts of a shown value stand out. Patterns are tried over the whole text one after
another; every group of a match that is not empty lays the style of its role over the stretch it
covers. The patterns know tags, names with values, brackets, and the alternatives of the last
one: addresses, identifiers, calls, words with a meaning, numbers, paths, quoted texts and links.
-/
namespace SlotText

/-- What a highlighted stretch is. -/
inductive Role where
  | tagStart | tagName | tagContents | tagEnd
  | attributeName | attributeValue
  | brace
  | ipv4 | ipv6 | eui64 | eui48 | uuid
  | call | true | false | none | ellipsis
  | complexNumber | number
  | path | filename
  | quotedText
  | url
  deriving DecidableEq, Repr

namespace Role

def style : Role → Style
  | ellipsis => { color := some 33 }
  | quotedText => { color := some 32, bold := some .false, italic := some .false }
  | brace | tagStart | tagEnd => { bold := some .true }
  | ipv4 | ipv6 | eui48 | eui64 => { color := some 92, bold := some .true }
  | tagName => { color := some 95, bold := some .true }
  | tagContents => { color := some 39 }
  | attributeName => { color := some 33, italic := some .false }
  | attributeValue => { color := some 35, italic := some .false }
  | number | complexNumber =>
    { color := some 36, bold := some .true, italic := some .false }
  | true => { color := some 92, italic := some .true }
  | false => { color := some 91, italic := some .true }
  | none => { color := some 35, italic := some .true }
  | url =>
    { color := some 94, underline := some .true, italic := some .false, bold := some .false }
  | uuid => { color := some 93, bold := some .false }
  | call => { color := some 35, bold := some .true }
  | path => { color := some 35 }
  | filename => { color := some 95 }

end Role

namespace Highlight

open Pattern

abbrev Rule := Pattern Role

def among (s : String) (c : Char) : Bool := s.toList.contains c

def isAsciiDigit (c : Char) : Bool := '0' ≤ c && c ≤ '9'

def isHexDigit (c : Char) : Bool :=
  isAsciiDigit c || ('a' ≤ c && c ≤ 'f') || ('A' ≤ c && c ≤ 'F')

def isTagNamePart (c : Char) : Bool := Text.isWord c || among "-.:|" c

def isPathPart (c : Char) : Bool := Text.isWord c || among "-._+" c

def isCallPart (c : Char) : Bool := Text.isWord c || c == '.'

def isLinkPart (c : Char) : Bool :=
  isAsciiDigit c || ('a' ≤ c && c ≤ 'z') || ('A' ≤ c && c ≤ 'Z') ||
    among "-$_+!\x60(),.?/;:&=%#~@" c

def digit : Rule := char isAsciiDigit

def hexDigit : Rule := char isHexDigit

def unicodeDigit : Rule := char Text.isDecimalDigit

def sign : Rule := char (among "-+")

def tag : Rule :=
  sequence [
    group .tagStart (one '<'),
    group .tagName (many (char isTagNamePart)),
    group .tagContents (many (char fun _ => true)),
    group .tagEnd (one '>')]

def namedValue : Rule :=
  sequence [
    group .attributeName (between 1 50 (char Text.isWord)),
    one '=',
    optional (group .attributeValue (sequence [
      optional (one '"'), several (char Text.isWord), optional (one '"')]))]

def brace : Rule := group .brace (char (among "][\x7b\x7d()"))

def ipv4 : Rule :=
  let part := between 1 3 digit
  group .ipv4 (sequence [part, one '.', part, one '.', part, one '.', part])

def ipv6 : Rule :=
  let part := between 1 4 hexDigit
  group .ipv6 (sequence [
    between 1 7 (sequence [part, one ':', optional (one ':')]), part])

/-- Hardware addresses of some number of bytes, in three notations. -/
def eui (bytes : Nat) : Rule :=
  let byte := between 1 2 hexDigit
  anyOf [
    sequence [times (bytes - 1) (sequence [byte, one '-']), byte],
    sequence [times (bytes - 1) (sequence [byte, one ':']), byte],
    sequence [times (bytes / 2 - 1) (sequence [times 4 hexDigit, one '.']), times 4 hexDigit]]

def uuid : Rule :=
  group .uuid (sequence [
    times 8 hexDigit, one '-', times 4 hexDigit, one '-', times 4 hexDigit, one '-',
    times 4 hexDigit, one '-', times 12 hexDigit])

def call : Rule := sequence [group .call (fewest 0 (char isCallPart)), one '(']

/-- A word that stands alone. -/
def alone (role : Role) (word : String) : Rule :=
  sequence [boundary true, group role (literal word), boundary true]

def ellipsis : Rule := group .ellipsis (literal "...")

/-- Digits, a point and digits, and a power of ten whose digits are matched by `power`. -/
def magnitude (power : Rule) : Rule :=
  sequence [
    several digit, optional (one '.'), many digit,
    optional (sequence [one 'e', optional sign, power])]

def complexNumber : Rule :=
  group .complexNumber (sequence [
    notAfter Text.isWord, optional (one '-'), magnitude (fewest 1 unicodeDigit),
    optional (sequence [sign, magnitude (several unicodeDigit)]),
    one 'j'])

def number : Rule :=
  group .number (either
    (sequence [
      notAfter Text.isWord, optional (one '-'), magnitude (fewest 1 unicodeDigit), boundary true])
    (sequence [literal "0x", many hexDigit]))

def path : Rule :=
  sequence [
    group .path (sequence [
      boundary false, many (sequence [one '/', several (char isPathPart)]), one '/']),
    optional (group .filename (many (char isPathPart)))]

/-- A text between quotes on one line, up to the first closing quote without a backslash. -/
def quotedBy (quote : String) : Rule :=
  sequence [
    optional (one 'b'), literal quote, fewest 0 (char (· != '\n')),
    notAfter (· == '\\'), literal quote]

def quotedText : Rule :=
  sequence [
    notAfter fun c => c == '\\' || Text.isWord c,
    group .quotedText (anyOf [quotedBy "'''", quotedBy "'", quotedBy "\"\"\"", quotedBy "\""])]

def url : Rule :=
  group .url (sequence [
    anyOf [literal "file", literal "https", literal "http", literal "ws", literal "wss"],
    literal "://", many (char isLinkPart)])

/-- The rules in the order they are applied. -/
def rules : List Rule :=
  [tag, namedValue, brace,
    anyOf [
      ipv4, ipv6, group .eui64 (eui 8), group .eui48 (eui 6), uuid, call,
      alone .true "True", alone .false "False", alone .none "None", ellipsis,
      complexNumber, number, path, quotedText, url]]

/-- The stretches of a text that stand out, later ones above earlier ones. -/
def marks (s : Text) : Marks Role :=
  (rules.flatMap fun r => r.marks s).filter fun m => m.2.1 < m.2.2

end Highlight

end SlotText
