import SlotText.Numeral

/-!
# Styles of terminal text

A style sets some of four attributes and leaves the others open. Laid over another one it wins
where it sets something. A styled piece of text is written between a control sequence with the
codes of its attributes and one that resets them; a piece without attributes is written bare.
-/
namespace SlotText

structure Style where
  bold : Option Bool := none
  italic : Option Bool := none
  underline : Option Bool := none
  color : Option Nat := none
  deriving DecidableEq, Repr

namespace Style

/-- One style laid over another. -/
def covering (upper lower : Style) : Style where
  bold := upper.bold.or lower.bold
  italic := upper.italic.or lower.italic
  underline := upper.underline.or lower.underline
  color := upper.color.or lower.color

def codes (s : Style) : List Nat :=
  (if s.bold = some true then [1] else []) ++
  (if s.italic = some true then [3] else []) ++
  (if s.underline = some true then [4] else []) ++
  s.color.toList

def escape : Char := '\x1b'

/-- The control sequence that switches on some attributes. -/
def switchOn (codes : List Nat) : Text :=
  escape :: '[' :: List.intercalate [';'] (codes.map Numeral.ofNat) ++ ['m']

def reset : Text := [escape, '[', '0', 'm']

/-- A piece of text in a style. -/
def write (s : Style) (piece : Text) : Text :=
  match s.codes with
  | [] => piece
  | codes => switchOn codes ++ piece ++ reset

end Style

end SlotText
