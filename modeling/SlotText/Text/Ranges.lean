import SlotText.Text.Basic

/-!
# Classes of characters as ranges of code points

A class is a list of inclusive ranges in ascending order. Membership stops at the first range
that begins above the code point, so the common low code points are found at once.
-/
namespace SlotText.Text

def inRanges (n : Nat) : List (Nat × Nat) → Bool
  | [] => false
  | (low, high) :: rest => if n < low then false else n ≤ high || inRanges n rest

theorem exists_range_of_inRanges {n : Nat} {rs : List (Nat × Nat)} (h : inRanges n rs = true) :
    ∃ r ∈ rs, r.1 ≤ n ∧ n ≤ r.2 := by
  induction rs with
  | nil => simp [inRanges] at h
  | cons r rs ih =>
    rw [inRanges] at h
    split at h
    · simp at h
    · next hl =>
      rw [Bool.or_eq_true, decide_eq_true_iff] at h
      rcases h with h | h
      · exact ⟨r, List.mem_cons_self, by omega, h⟩
      · obtain ⟨r', hr, hb⟩ := ih h
        exact ⟨r', List.mem_cons_of_mem _ hr, hb⟩

end SlotText.Text
