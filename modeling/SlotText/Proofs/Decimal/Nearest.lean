import SlotText.Number.Text
import SlotText.Proofs.Decimal.Rational

/-!
# The nearest whole number

A number has a nearest whole number, and two of them if it lies halfway between them; then the one
that is farther from zero is taken, so that a number and its negative are rounded alike. This fixes
one whole number for every number. A decimal is rounded by its digits, of which all those behind the
point count, however many there are and however small the power of ten is that they stand for.
-/
namespace SlotText

/-- No whole number is nearer to `q`, and none that is as near is farther from zero. -/
structure NearestAway (q : ℚ) (r : ℤ) : Prop where
  le : ∀ m : ℤ, |q - r| ≤ |q - m|
  away : ∀ m : ℤ, |q - m| = |q - r| → |m| ≤ |r|

namespace NearestAway

variable {q : ℚ} {r r' : ℤ}

/-- Two whole numbers that are equally near and equally far from zero are the same, unless one is
the negative of the other; and then zero is nearer. -/
theorem unique (h : NearestAway q r) (h' : NearestAway q r') : r = r' := by
  have hnear : |q - r| = |q - r'| := le_antisymm (h.le r') (h'.le r)
  have hfar : |r| = |r'| := le_antisymm (h'.away r hnear) (h.away r' hnear.symm)
  rcases abs_eq_abs.mp hfar with heq | heq
  · exact heq
  · rcases abs_eq_abs.mp hnear with hsame | hopposite
    · exact_mod_cast sub_right_injective hsame
    · have hzero : q = 0 := by
        rw [heq] at hopposite
        push_cast at hopposite
        linarith
      have hle := h.le 0
      rw [hzero, Int.cast_zero, sub_zero, zero_sub, abs_neg, abs_zero] at hle
      have hr : r = 0 := by exact_mod_cast abs_nonpos_iff.mp hle
      omega

protected theorem neg (h : NearestAway q r) : NearestAway (-q) (-r) := by
  have hneg : ∀ m : ℤ, |-q - m| = |q - (-m : ℤ)| := by
    intro m
    rw [← abs_neg]
    push_cast
    congr 1
    ring
  refine ⟨fun m => ?_, fun m hm => ?_⟩
  · rw [hneg, hneg, neg_neg]
    exact h.le (-m)
  · rw [hneg, hneg, neg_neg] at hm
    have hle := h.away (-m) hm
    rwa [abs_neg] at hle ⊢

theorem withSign {n : ℕ} (h : NearestAway q n) (negative : Bool) :
    NearestAway (withSign negative q) (if negative then -(n : ℤ) else n) := by
  cases negative with
  | true => exact h.neg
  | false => exact h

theorem of_intCast (m : ℤ) : NearestAway m m := by
  refine ⟨fun k => ?_, fun k hk => ?_⟩
  · rw [sub_self, abs_zero]
    exact abs_nonneg _
  · rw [sub_self, abs_zero, abs_eq_zero, sub_eq_zero] at hk
    have heq : m = k := by exact_mod_cast hk
    rw [heq]

/-- Adding a half and leaving out the digits behind the point takes halves up. -/
theorem floor_add_half (hq : 0 ≤ q) : NearestAway q (⌊q + 1 / 2⌋₊ : ℕ) := by
  have hlow : ((⌊q + 1 / 2⌋₊ : ℕ) : ℚ) ≤ q + 1 / 2 := Nat.floor_le (by linarith)
  have hhigh : q + 1 / 2 < (⌊q + 1 / 2⌋₊ : ℕ) + 1 := Nat.lt_floor_add_one _
  generalize ⌊q + 1 / 2⌋₊ = n at hlow hhigh
  have hhalf : |q - n| ≤ 1 / 2 := abs_le.mpr ⟨by linarith, by linarith⟩
  refine ⟨fun m => ?_, fun m hm => ?_⟩
  · rw [Int.cast_natCast]
    by_cases hmn : m = n
    · rw [hmn, Int.cast_natCast]
    · have hone : (1 : ℚ) ≤ |(n : ℚ) - m| := by
        have hint : (1 : ℤ) ≤ |(n : ℤ) - m| := Int.one_le_abs (by omega)
        exact_mod_cast hint
      have htriangle : |(n : ℚ) - m| ≤ |q - n| + |q - m| := by
        rw [abs_sub_comm q n]
        exact abs_sub_le _ _ _
      linarith
  · rw [Int.cast_natCast] at hm
    rw [Nat.abs_cast]
    by_contra hlt
    rcases lt_abs.mp (not_le.mp hlt) with hm' | hm'
    · -- Above the whole number taken, the distance is more than a half.
      have hle : (n : ℚ) + 1 ≤ m := by exact_mod_cast hm'
      have hdistance := neg_le_abs (q - m)
      linarith
    · have hle : (n : ℚ) + 1 ≤ -m := by exact_mod_cast hm'
      have hnonneg : (0 : ℚ) ≤ n := Nat.cast_nonneg n
      have hdistance := le_abs_self (q - m)
      linarith

end NearestAway

namespace Decimal

variable {c : Nat} {e : Int}

theorem roundHalfUp_eq (c : Nat) (e : Int) : roundHalfUp c e = ⌊(c : ℚ) * 10 ^ e + 1 / 2⌋₊ := by
  unfold roundHalfUp
  split
  · next he =>
      rw [magnitude_of_nonneg he, add_comm, Nat.floor_add_natCast (by norm_num),
        Nat.floor_eq_zero.mpr (by norm_num), Nat.zero_add]
  · next he =>
      have hpos : 0 < Nat.pow 10 (-e).toNat := Nat.pow_pos (by decide)
      rw [half_places, magnitude_of_neg he]
      generalize Nat.pow 10 (-e).toNat = unit at hpos ⊢
      have hne : (unit : ℚ) ≠ 0 := by exact_mod_cast hpos.ne'
      have hratio : (c : ℚ) / unit + 1 / 2 =
          ((2 * c + unit : ℕ) : ℚ) / ((2 * unit : ℕ) : ℚ) := by
        push_cast
        field_simp
      rw [hratio, Nat.floor_div_eq_div]

/-- The whole number of a decimal is the nearest one, and halves go away from zero. -/
theorem nearestAway_nearestInt (negative : Bool) (c : Nat) (e : Int) :
    NearestAway (finite negative c e).toRat (finite negative c e).nearestInt := by
  have hround := NearestAway.floor_add_half (magnitude_nonneg c e)
  rw [← roundHalfUp_eq] at hround
  exact hround.withSign negative

end Decimal

end SlotText
