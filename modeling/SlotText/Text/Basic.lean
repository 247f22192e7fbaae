/-!
# Text as a list of characters

A text is the list of its code points, so lengths, positions and widths all count code
points. Positions given from outside may be negative and then count from the end; this module
says once what that means for a slice.
-/
namespace SlotText

abbrev Text := List Char

namespace Text

/-- The place of a boundary in a text of `length` characters: negative ones count from the end,
and whatever lies outside is moved to the nearer end. -/
def boundary (length : Nat) (i : Int) : Nat :=
  if i < 0 then (i + length).toNat else min i.toNat length

/-- The characters from one boundary up to another; empty if they are out of order. -/
def slice (s : Text) (start stop : Int) : Text :=
  (s.take (boundary s.length stop)).drop (boundary s.length start)

/-- The characters up to a boundary. -/
def sliceTo (s : Text) (stop : Int) : Text :=
  s.take (boundary s.length stop)

/-- The character at an index; negative indices count from the end. -/
def at? (s : Text) (i : Int) : Option Char :=
  let j := if i < 0 then i + s.length else i
  if j < 0 then none else s[j.toNat]?

/-- A text written `n` times over. -/
def times (s : Text) (n : Nat) : Text :=
  if s.isEmpty then [] else (List.replicate n s).flatten

/-- The text before the first occurrence of a character, and the text after it if there is
one. -/
def cut (c : Char) (s : Text) : Text × Option Text :=
  match s.dropWhile (· != c) with
  | [] => (s, none)
  | _ :: rest => (s.takeWhile (· != c), some rest)

theorem times_eq (s : Text) (n : Nat) : s.times n = (List.replicate n s).flatten := by
  unfold times
  split
  · next h => simp [List.isEmpty_iff.mp h]
  · rfl

theorem times_singleton (c : Char) (n : Nat) : times [c] n = List.replicate n c := by
  simp [times_eq, List.flatten_replicate_singleton]

theorem sliceTo_of_nonneg (s : Text) (n : Nat) : s.sliceTo n = s.take n := by
  rw [sliceTo, boundary, if_neg (by omega), Int.toNat_natCast]
  rcases Nat.le_total n s.length with h | h
  · rw [Nat.min_eq_left h]
  · rw [Nat.min_eq_right h, List.take_length, List.take_of_length_le h]

end Text

end SlotText
