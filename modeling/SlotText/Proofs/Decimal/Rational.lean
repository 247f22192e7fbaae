import SlotText.Decimal
import SlotText.Proofs.Numeral.Expansion
import Mathlib.Data.Int.Log

/-!
# The number that a decimal stands for

A finite decimal stands for its coefficient times a power of ten, with its sign. Decimals that
differ in their trailing zeros stand for the same number, and so do the two zeros. Whether a decimal
is whole, its whole part, its ratio and the place of its first digit are read off the number, so
they are the same for all decimals that stand for it.
-/
namespace SlotText

/-- A power with any exponent as a ratio of powers with natural ones. -/
theorem zpow_eq_div {b : ℚ} (hb : b ≠ 0) (e : Int) : b ^ e = b ^ e.toNat / b ^ (-e).toNat := by
  rw [← zpow_natCast, ← zpow_natCast, ← zpow_sub₀ hb, Int.toNat_sub_toNat_neg]

theorem cast_natPow (b k : ℕ) : ((Nat.pow b k : ℕ) : ℚ) = (b : ℚ) ^ k := Nat.cast_pow b k

/-- A natural number times a power with any exponent as a ratio of natural numbers. -/
theorem cast_ratio_eq {b : ℕ} (hb : b ≠ 0) (c : ℕ) (e : Int) :
    ((c * Nat.pow b e.toNat : ℕ) : ℚ) / ((Nat.pow b (-e).toNat : ℕ) : ℚ) = c * (b : ℚ) ^ e := by
  rw [Nat.cast_mul, cast_natPow, cast_natPow, zpow_eq_div (Nat.cast_ne_zero.mpr hb) e,
    mul_div_assoc]

theorem dvd_iff_exists_div_eq {num den : ℕ} (hden : 0 < den) :
    den ∣ num ↔ ∃ n : ℕ, (num : ℚ) / den = n := by
  have hne : (den : ℚ) ≠ 0 := Nat.cast_ne_zero.mpr hden.ne'
  constructor
  · rintro ⟨n, rfl⟩
    exact ⟨n, by rw [Nat.cast_mul, mul_div_cancel_left₀ _ hne]⟩
  · rintro ⟨n, hn⟩
    rw [div_eq_iff hne] at hn
    exact Dvd.intro_left n (by exact_mod_cast hn.symm)

/-- A whole number is its magnitude with its sign. -/
theorem ite_neg_natAbs (m : Int) : (if m < 0 then -(m.natAbs : Int) else m.natAbs) = m := by
  split
  · omega
  · omega

/-- A magnitude with its sign. -/
def withSign (negative : Bool) (r : ℚ) : ℚ := if negative then -r else r

variable {negative negative' : Bool} {r r' : ℚ}

theorem abs_withSign (hr : 0 ≤ r) (negative : Bool) : |withSign negative r| = r := by
  cases negative with
  | true => exact (abs_neg r).trans (abs_of_nonneg hr)
  | false => exact abs_of_nonneg hr

theorem withSign_lt_zero_iff (hr : 0 < r) : withSign negative r < 0 ↔ negative = true := by
  cases negative with
  | true => simpa [withSign] using hr
  | false => simpa [withSign] using hr.le

theorem withSign_eq_zero_iff : withSign negative r = 0 ↔ r = 0 := by
  cases negative <;> simp [withSign]

theorem exists_natCast_of_withSign_eq {m : Int} (hr : 0 ≤ r) (h : withSign negative r = m) :
    ∃ n : ℕ, r = n := by
  refine ⟨m.natAbs, ?_⟩
  rw [Nat.cast_natAbs, Int.cast_abs, ← h, abs_withSign hr]

theorem withSign_natCast (negative : Bool) (n : ℕ) :
    withSign negative n = ((if negative then -(n : Int) else n : Int) : ℚ) := by
  cases negative with
  | true => exact_mod_cast rfl
  | false => exact_mod_cast rfl

theorem decide_withSign_lt_zero (hr : 0 < r) (negative : Bool) :
    decide (withSign negative r < 0) = negative := by
  rw [Bool.eq_iff_iff, decide_eq_true_eq, withSign_lt_zero_iff hr]

theorem ne_natCast_of_withSign (h : ∀ m : Int, withSign negative r ≠ m) (n : ℕ) : r ≠ n := by
  rintro rfl
  exact h _ (withSign_natCast negative n)

theorem pos_of_withSign (hr : 0 ≤ r) (h : ∀ m : Int, withSign negative r ≠ m) : 0 < r :=
  hr.lt_of_ne' (by simpa using ne_natCast_of_withSign h 0)

theorem abs_withSign_sub (negative : Bool) (r r' : ℚ) :
    |withSign negative r - withSign negative r'| = |r - r'| := by
  cases negative with
  | true => exact (congrArg _ (neg_sub_neg r r')).trans (abs_sub_comm r' r)
  | false => rfl

/-- Numbers are at least as far from each other as their magnitudes. -/
theorem abs_sub_le_withSign (hr : 0 ≤ r) (hr' : 0 ≤ r') (negative negative' : Bool) :
    |r - r'| ≤ |withSign negative r - withSign negative' r'| := by
  have hle := abs_abs_sub_abs_le (withSign negative r) (withSign negative' r')
  rwa [abs_withSign hr, abs_withSign hr'] at hle

/-- With different signs they are farther from each other, unless one of them is zero. -/
theorem eq_zero_of_abs_sub_eq (hr : 0 < r) (hr' : 0 ≤ r') (hne : negative ≠ negative')
    (h : |r - r'| = |withSign negative r - withSign negative' r'|) : r' = 0 := by
  have hsum : |withSign negative r - withSign negative' r'| = r + r' := by
    rw [← abs_of_pos (add_pos_of_pos_of_nonneg hr hr'), Bool.eq_not.mpr hne]
    cases negative' with
    | true => exact congrArg _ (sub_neg_eq_add r r')
    | false => exact (congrArg _ (neg_add' r r').symm).trans (abs_neg _)
  rw [hsum] at h
  rcases abs_choice (r - r') with habs | habs
  · linarith
  · linarith

namespace Decimal

/-- The number that a decimal stands for; zero if it is not finite. -/
def toRat : Decimal → ℚ
  | finite negative c e => withSign negative (c * 10 ^ e)
  | _ => 0

variable {c : Nat} {e : Int}

theorem exists_finite {d : Decimal} (h : d.isFinite = true) :
    ∃ negative c e, d = finite negative c e := by
  cases d with
  | finite negative c e => exact ⟨negative, c, e, rfl⟩
  | infinite negative => cases h
  | nan negative signaling payload => cases h

theorem magnitude_nonneg (c : Nat) (e : Int) : (0 : ℚ) ≤ c * 10 ^ e :=
  mul_nonneg (Nat.cast_nonneg c) (zpow_nonneg (by norm_num) e)

theorem abs_toRat (negative : Bool) (c : Nat) (e : Int) :
    |(finite negative c e).toRat| = c * 10 ^ e :=
  abs_withSign (magnitude_nonneg c e) negative

theorem magnitude_eq_zero_iff : (c : ℚ) * 10 ^ e = 0 ↔ c = 0 := by
  rw [mul_eq_zero, Nat.cast_eq_zero, or_iff_left (zpow_ne_zero e (by norm_num))]

theorem magnitude_pos (hc : c ≠ 0) : (0 : ℚ) < c * 10 ^ e :=
  (magnitude_nonneg c e).lt_of_ne' (mt magnitude_eq_zero_iff.mp hc)

theorem ratio_eq (c : Nat) (e : Int) : ((ratio c e).1 : ℚ) / (ratio c e).2 = c * 10 ^ e :=
  cast_ratio_eq (by decide) c e

theorem magnitude_of_nonneg (he : 0 ≤ e) : (c : ℚ) * 10 ^ e = (raised c e : ℕ) := by
  have hzero : (-e).toNat = 0 := by omega
  have hraised : ((raised c e : ℕ) : ℚ) = c * 10 ^ e.toNat := by
    rw [raised_eq]
    exact_mod_cast rfl
  rw [hraised, zpow_eq_div (by norm_num) e, hzero, pow_zero, div_one]

theorem magnitude_of_neg (he : ¬0 ≤ e) :
    (c : ℚ) * 10 ^ e = (c : ℚ) / ((Nat.pow 10 (-e).toNat : ℕ) : ℚ) := by
  have hzero : e.toNat = 0 := by omega
  rw [cast_natPow, Nat.cast_ofNat, zpow_eq_div (by norm_num) e, hzero, pow_zero, mul_one_div]

theorem isWhole_iff : isWhole c e = true ↔ ∃ n : ℕ, (c : ℚ) * 10 ^ e = n := by
  unfold isWhole
  by_cases he : 0 ≤ e
  · rw [magnitude_of_nonneg he, decide_eq_true he, Bool.true_or]
    exact iff_of_true rfl ⟨_, rfl⟩
  · have hpos : 0 < Nat.pow 10 (-e).toNat := Nat.pow_pos (by decide)
    rw [magnitude_of_neg he, decide_eq_false he, Bool.false_or, beq_iff_eq, mod_places,
      ← Nat.dvd_iff_mod_eq_zero, dvd_iff_exists_div_eq hpos]

theorem wholePart_eq (h : isWhole c e = true) : ((wholePart c e : ℕ) : ℚ) = c * 10 ^ e := by
  unfold wholePart
  split
  · next he => exact (magnitude_of_nonneg he).symm
  · next he =>
      have hpos : 0 < Nat.pow 10 (-e).toNat := Nat.pow_pos (by decide)
      obtain ⟨n, hn⟩ := isWhole_iff.mp h
      rw [hn, div_places]
      rw [magnitude_of_neg he, div_eq_iff (by exact_mod_cast hpos.ne')] at hn
      rw [Nat.div_eq_of_eq_mul_left hpos (by exact_mod_cast hn)]

theorem log_eq_of_le_of_lt {b : ℕ} (hb : 1 < b) (hr : 0 < r) (hle : (b : ℚ) ^ e ≤ r)
    (hlt : r < (b : ℚ) ^ (e + 1)) : Int.log b r = e := by
  have h₁ := (Int.zpow_le_iff_le_log hb hr).mp hle
  have h₂ := (Int.lt_zpow_iff_log_lt hb hr).mp hlt
  omega

theorem log_magnitude (hc : c ≠ 0) : Int.log 10 ((c : ℚ) * 10 ^ e) = e + precision c - 1 := by
  have hpow : (0 : ℚ) < 10 ^ e := zpow_pos (by norm_num) e
  have hle : ((10 : ℚ) ^ Nat.log 10 c) ≤ c := by
    exact_mod_cast Nat.pow_log_le_self 10 hc
  have hlt : (c : ℚ) < 10 ^ (Nat.log 10 c + 1) := by
    exact_mod_cast Nat.lt_pow_succ_log_self (by decide) c
  have horder : e + precision c - 1 = Nat.log 10 c + e := by
    rw [precision, Numeral.length_digits (by decide) hc]
    omega
  rw [horder]
  apply log_eq_of_le_of_lt (by decide) (magnitude_pos hc)
  · rw [Nat.cast_ofNat, zpow_add₀ (by norm_num), zpow_natCast]
    exact mul_le_mul_of_nonneg_right hle hpow.le
  · rw [Nat.cast_ofNat, add_right_comm, zpow_add₀ (by norm_num)]
    exact mul_lt_mul_of_pos_right (by exact_mod_cast hlt) hpow

end Decimal

end SlotText
