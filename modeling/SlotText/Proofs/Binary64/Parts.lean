import SlotText.Binary64
import SlotText.Proofs.Decimal.Rational

/-!
# The number that a float stands for

A finite float stands for its significand times a power of two, with its sign. Below the sign its
pattern is the sum of two fields. A significand is put in its place by adding it to a multiple of
the first bit of the exponent, and this is right also where it is as large as the first significand
of the next exponent, since then it carries.
-/
namespace SlotText.Binary64

/-- The magnitude that a finite float stands for. -/
def magnitude (x : Binary64) : ℚ := x.significand * 2 ^ x.exponent

/-- The number that a finite float stands for. -/
def toRat (x : Binary64) : ℚ := withSign x.isNegative x.magnitude

variable {x : Binary64} {n k m : Nat}

theorem two_zpow_pos (e : Int) : (0 : ℚ) < 2 ^ e := zpow_pos (by norm_num) e

theorem magnitude_nonneg (x : Binary64) : 0 ≤ x.magnitude :=
  mul_nonneg (Nat.cast_nonneg _) (two_zpow_pos _).le

theorem ratio_eq (x : Binary64) : (x.ratio.1 : ℚ) / x.ratio.2 = x.magnitude :=
  cast_ratio_eq (by decide) x.significand x.exponent

theorem abs_toRat (x : Binary64) : |x.toRat| = x.magnitude := abs_withSign x.magnitude_nonneg _

theorem isWhole_iff (hx : x.isFinite = true) : x.isWhole = true ↔ ∃ n : ℕ, x.magnitude = n := by
  have hpos : 0 < x.ratio.2 := Nat.pow_pos (by decide)
  rw [isWhole, hx, Bool.true_and, beq_iff_eq, ← Nat.dvd_iff_mod_eq_zero,
    dvd_iff_exists_div_eq hpos, ratio_eq]

theorem fractionField_lt (x : Binary64) : x.fractionField < fractions := Nat.mod_lt _ (by decide)

theorem significand_lt (x : Binary64) : x.significand < 2 * fractions := by
  have hfraction := x.fractionField_lt
  unfold significand
  split
  · omega
  · omega

theorem exponent_ge (x : Binary64) : -1074 ≤ x.exponent := by
  unfold exponent
  split
  · exact Int.le_refl _
  · omega

theorem exponent_le (h : x.isFinite = true) : x.exponent ≤ 971 := by
  have hfield : x.exponentField < 2048 := Nat.mod_lt _ (by decide)
  rw [isFinite, bne_iff_ne] at h
  unfold exponent
  split
  · decide
  · omega

theorem toNat_ofMagnitudeBits (hn : n < signWeight) (negative : Bool) :
    (ofMagnitudeBits negative n).bits.toNat = (if negative then signWeight else 0) + n := by
  rw [ofMagnitudeBits, UInt64.toNat_ofNat']
  apply Nat.mod_eq_of_lt
  unfold signWeight at hn ⊢
  split
  · omega
  · omega

theorem isNegative_ofMagnitudeBits (hn : n < signWeight) (negative : Bool) :
    (ofMagnitudeBits negative n).isNegative = negative := by
  rw [isNegative, toNat_ofMagnitudeBits hn]
  cases negative with
  | true => simp
  | false => simpa using hn

theorem fields_ofMagnitudeBits (hn : n < signWeight) (negative : Bool) :
    (ofMagnitudeBits negative n).exponentField = n / fractions ∧
      (ofMagnitudeBits negative n).fractionField = n % fractions := by
  rw [exponentField, fractionField, toNat_ofMagnitudeBits hn]
  unfold signWeight at hn ⊢
  unfold fractions
  split
  · omega
  · omega

theorem isFinite_ofMagnitudeBits (hn : n ≤ infinityBits) (negative : Bool) :
    (ofMagnitudeBits negative n).isFinite = true ↔ n < infinityBits := by
  have hlt : n < signWeight := Nat.lt_of_le_of_lt hn (by decide)
  have hle : n / fractions ≤ 2047 := Nat.div_le_of_le_mul ((Nat.mul_comm _ _).trans_ge hn)
  have hfield : n / fractions < 2047 ↔ n < infinityBits := Nat.div_lt_iff_lt_mul (by decide)
  rw [isFinite, bne_iff_ne, (fields_ofMagnitudeBits hlt negative).1, ← hfield]
  omega

theorem parts_of_exponentField_eq_zero (h : x.exponentField = 0) :
    x.significand = x.fractionField ∧ x.exponent = -1074 :=
  ⟨if_pos h, if_pos h⟩

theorem parts_of_exponentField_ne_zero (h : x.exponentField ≠ 0) :
    x.significand = fractions + x.fractionField ∧ x.exponent = (x.exponentField : Int) - 1075 :=
  ⟨if_neg h, if_neg h⟩

theorem fields_of_place (hn : k * fractions + m < infinityBits) (negative : Bool) :
    (ofMagnitudeBits negative (k * fractions + m)).exponentField = m / fractions + k ∧
      (ofMagnitudeBits negative (k * fractions + m)).fractionField = m % fractions := by
  have hlt : k * fractions + m < signWeight := hn.trans (by decide)
  have hfields := fields_ofMagnitudeBits hlt negative
  rwa [Nat.mul_add_mod', Nat.add_comm (k * fractions), Nat.add_mul_div_right _ _ (by decide),
    Nat.add_comm m] at hfields

/-- A significand in its place, which may be as large as the first one of the next exponent. -/
theorem parts_ofMagnitudeBits (hm : m ≤ 2 * fractions) (hk : k = 0 ∨ fractions ≤ m)
    (hn : k * fractions + m < infinityBits) (negative : Bool) :
    (ofMagnitudeBits negative (k * fractions + m)).magnitude = m * 2 ^ ((k : Int) - 1074) ∧
      (m % 2 = 0 → (ofMagnitudeBits negative (k * fractions + m)).significand % 2 = 0) := by
  obtain ⟨hfield, hfraction⟩ := fields_of_place hn negative
  generalize ofMagnitudeBits negative (k * fractions + m) = x at hfield hfraction
  rcases Nat.lt_or_ge m fractions with hsmall | hlarge
  · obtain rfl : k = 0 := by omega
    rw [Nat.div_eq_of_lt hsmall] at hfield
    rw [Nat.mod_eq_of_lt hsmall] at hfraction
    obtain ⟨hsignificand, hexponent⟩ := parts_of_exponentField_eq_zero hfield
    rw [magnitude, hsignificand, hexponent, hfraction]
    exact ⟨rfl, id⟩
  · have hpos := Nat.div_pos hlarge (by decide)
    obtain ⟨hsignificand, hexponent⟩ := parts_of_exponentField_ne_zero (x := x) (by omega)
    unfold fractions at *
    rcases Nat.lt_or_eq_of_le hm with hm | rfl
    · have hplace : x.significand = m ∧ x.exponent = (k : Int) - 1074 := by omega
      rw [magnitude, hplace.1, hplace.2]
      exact ⟨rfl, id⟩
    · -- The fraction is empty, and its last bit has gone into the exponent.
      have hcarry : x.significand = fractions ∧ x.exponent = 1 + ((k : Int) - 1074) := by
        unfold fractions
        omega
      rw [magnitude, hcarry.1, hcarry.2, zpow_add₀ (by norm_num)]
      refine ⟨?_, fun _ => by decide⟩
      push_cast
      ring

end SlotText.Binary64
