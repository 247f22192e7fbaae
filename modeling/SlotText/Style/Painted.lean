import SlotText.Style.Highlight

/-!
# Painted text

A text with styled stretches is cut wherever a stretch begins or ends and on both sides of every
line break. Each piece is written in the style of the stretches over it. Line breaks are always
written bare, so no style reaches over the end of a line.
-/
namespace SlotText

/-- A styled stretch of a text, from one position up to another. -/
structure Stretch where
  start : Nat
  stop : Nat
  style : Style
  deriving DecidableEq, Repr

namespace Painted

/-- The pieces of a text, each with its position. A piece ends where `cut` holds and on both
sides of a line break. -/
def pieces (cut : Nat → Bool) : Nat → Text → List (Nat × Text)
  | _, [] => []
  | i, c :: rest =>
    match pieces cut (i + 1) rest with
    | [] => [(i, [c])]
    | (j, piece) :: more =>
      if cut (i + 1) || c == '\n' || piece.head? == some '\n' then
        (i, [c]) :: (j, piece) :: more
      else (i, c :: piece) :: more

/-- The style at a position, later stretches over earlier ones. -/
def styleAt (stretches : List Stretch) (i : Nat) : Style :=
  stretches.foldl (fun s t => if t.start ≤ i ∧ i < t.stop then t.style.covering s else s) {}

def writePiece (stretches : List Stretch) (piece : Nat × Text) : Text :=
  if piece.2 = ['\n'] then piece.2 else (styleAt stretches piece.1).write piece.2

/-- A text with its styled stretches, in the form a terminal shows. -/
def write (stretches : List Stretch) (s : Text) : Text :=
  (pieces (fun i => stretches.any fun t => t.start == i || t.stop == i) 0 s).flatMap
    (writePiece stretches)

theorem flatMap_pieces (cut : Nat → Bool) (i : Nat) (s : Text) :
    (pieces cut i s).flatMap (·.2) = s := by
  induction s generalizing i with
  | nil => rfl
  | cons c rest ih =>
    have h := ih (i + 1)
    rw [pieces]
    cases hp : pieces cut (i + 1) rest with
    | nil =>
      rw [hp] at h
      simp only [List.flatMap_nil] at h
      simp [← h]
    | cons first more =>
      rw [hp] at h
      simp only [List.flatMap_cons] at h
      dsimp only
      split <;> simp [← h]

end Painted

/-- A text with everything highlighted that stands out in it. -/
def Text.highlighted (s : Text) : Text :=
  Painted.write ((Highlight.marks s).map fun m => ⟨m.2.1, m.2.2, m.1.style⟩) s

end SlotText
