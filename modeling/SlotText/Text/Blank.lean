import SlotText.Text.Ranges

/-!
# Blank characters

The white space that ends a specifier: the characters of bidirectional type paragraph separator,
segment separator or white space, and the space separators. Zero-width characters are not among
them.
-/
namespace SlotText.Text

def blankRanges : List (Nat × Nat) :=
  [(9, 13), (28, 32), (133, 133), (160, 160), (5760, 5760), (8192, 8202), (8232, 8233),
   (8239, 8239), (8287, 8287), (12288, 12288)]

def isBlank (c : Char) : Bool := inRanges c.toNat blankRanges

end SlotText.Text
