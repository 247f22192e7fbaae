import SlotText.Number.Text
import Mathlib.Tactic.Ring

/-!
# The size of a float's decimal

The shortest decimal of a float lies in the interval of the numbers that round to it, so it is not
above the upper end of this interval, and neither is the whole number nearest to it. The upper end
for the largest floats has a little over three hundred digits, far less than can be written.
-/
namespace SlotText

/-- The number `c · 10^e` is not above a natural number. -/
def Decimal.AtMost (bound c : Nat) (e : Int) : Prop :=
  c * Nat.pow 10 e.toNat ≤ bound * Nat.pow 10 (-e).toNat

namespace Decimal

variable {bound c : Nat} {e : Int}

theorem AtMost.shift (h : AtMost bound c e) (hc : c % 10 = 0) : AtMost bound (c / 10) (e + 1) := by
  unfold AtMost at h ⊢
  obtain ⟨q, hq⟩ : ∃ q, c = 10 * q := ⟨c / 10, by omega⟩
  have hdiv : c / 10 = q := by omega
  rw [hdiv]
  rcases Int.lt_or_le e 0 with he | he
  · obtain ⟨k, hk⟩ : ∃ k : Nat, e = -(k + 1 : Nat) := ⟨(-e - 1).toNat, by omega⟩
    have h₁ : e.toNat = 0 := by omega
    have h₂ : (-e).toNat = k + 1 := by omega
    have h₃ : (e + 1).toNat = 0 := by omega
    have h₄ : (-(e + 1)).toNat = k := by omega
    rw [h₁, h₂, hq] at h
    rw [h₃, h₄]
    have hpow : Nat.pow 10 (k + 1) = 10 * Nat.pow 10 k := Nat.pow_succ'
    have hone : Nat.pow 10 0 = 1 := rfl
    rw [hpow, hone] at h
    rw [hone]
    apply Nat.le_of_mul_le_mul_left (c := 10) _ (by decide)
    calc 10 * (q * 1) = 10 * q * 1 := by ring
      _ ≤ bound * (10 * Nat.pow 10 k) := h
      _ = 10 * (bound * Nat.pow 10 k) := by ring
  · have h₁ : (e + 1).toNat = e.toNat + 1 := by omega
    have h₂ : (-e).toNat = 0 := by omega
    have h₃ : (-(e + 1)).toNat = 0 := by omega
    rw [h₂, hq] at h
    rw [h₁, h₃]
    have hpow : Nat.pow 10 (e.toNat + 1) = 10 * Nat.pow 10 e.toNat := Nat.pow_succ'
    calc q * Nat.pow 10 (e.toNat + 1) = 10 * q * Nat.pow 10 e.toNat := by rw [hpow]; ring
      _ ≤ bound * Nat.pow 10 0 := h

/-- The nearest whole number is not above a natural number that the decimal is not above. -/
theorem AtMost.roundHalfUp_le (h : AtMost bound c e) : roundHalfUp c e ≤ bound := by
  unfold AtMost at h
  unfold roundHalfUp
  split
  · next he =>
      have hzero : (-e).toNat = 0 := by omega
      rw [hzero] at h
      rw [raised_eq]
      exact h.trans_eq (Nat.mul_one bound)
  · next he =>
      have hzero : e.toNat = 0 := by omega
      have hpos : 0 < Nat.pow 10 (-e).toNat := Nat.pow_pos (by decide)
      rw [hzero] at h
      rw [half_places]
      generalize Nat.pow 10 (-e).toNat = unit at h hpos ⊢
      have hc : c ≤ bound * unit := (Nat.mul_one c).symm.trans_le h
      apply Nat.le_of_lt_succ
      apply Nat.div_lt_of_lt_mul
      calc 2 * c + unit ≤ 2 * (bound * unit) + unit := by omega
        _ < 2 * (bound * unit) + 2 * unit := by omega
        _ = 2 * unit * (bound + 1) := by ring

theorem natAbs_nearestInt_finite (negative : Bool) (c : Nat) (e : Int) :
    (nearestInt (finite negative c e)).natAbs = roundHalfUp c e := by
  unfold nearestInt
  split
  · next h =>
      cases h
      split
      · exact Int.natAbs_neg _
      · rfl
  · next h => exact absurd rfl (h _ _ _)

end Decimal

namespace Binary64

namespace Interval

variable {i : Interval} {u : Int} {c : Nat}

theorem grid_le_of_contains (h : i.contains u c = true) : i.grid u c ≤ i.scaled u i.high := by
  unfold contains at h
  split at h
  · simp only [Bool.and_eq_true, decide_eq_true_eq] at h
    exact h.2
  · simp only [Bool.and_eq_true, decide_eq_true_eq] at h
    exact Nat.le_of_lt h.2

theorem contains_of_nearest? (h : i.nearest? u = some c) : i.contains u c = true := by
  simp only [nearest?] at h
  split at h
  · cases h
  · next hdown _ =>
      cases h
      exact hdown
  · next _ hup =>
      cases h
      exact hup
  · next hdown hup =>
      split at h
      · cases h
        exact hdown
      · split at h
        · cases h
          exact hup
        · split at h
          · cases h
            exact hdown
          · cases h
            exact hup

theorem grid_eq_mul (i : Interval) (u : Int) (c : Nat) : i.grid u c = c * i.grid u 1 := by
  unfold grid
  ring

/-- Whatever the search finds is not above the upper end. -/
theorem grid_search_le (h : i.middle ≤ i.high) (fuel : Nat) (u : Int) :
    i.grid (i.search fuel u).2 (i.search fuel u).1 ≤ i.scaled (i.search fuel u).2 i.high := by
  induction fuel generalizing u with
  | zero =>
      rw [search, grid_eq_mul]
      calc i.scaled u i.middle / i.grid u 1 * i.grid u 1 ≤ i.scaled u i.middle :=
            Nat.div_mul_le_self ..
        _ ≤ i.scaled u i.high := by
            unfold scaled
            exact Nat.mul_le_mul_right _ (Nat.mul_le_mul_right _ h)
  | succ fuel ih =>
      rw [search]
      split
      · next c hc => exact grid_le_of_contains (contains_of_nearest? hc)
      · exact ih (u - 1)

/-- The upper end, rounded up to a whole number. -/
def bound (i : Interval) : Nat := i.high * Nat.pow 2 i.power.toNat

theorem atMost_of_grid_le (h : i.grid u c ≤ i.scaled u i.high) : Decimal.AtMost i.bound c u := by
  have hpos : 0 < Nat.pow 2 (-i.power).toNat := Nat.pow_pos (by decide)
  unfold Decimal.AtMost bound
  exact (Nat.le_mul_of_pos_right _ hpos).trans h

end Interval

theorem withoutZeros_atMost {bound : Nat} (fuel : Nat) {c : Nat} {e : Int}
    (h : Decimal.AtMost bound c e) :
    Decimal.AtMost bound (withoutZeros fuel c e).1 (withoutZeros fuel c e).2 := by
  induction fuel generalizing c e with
  | zero => exact h
  | succ fuel ih =>
      rw [withoutZeros]
      split
      · next hc => exact ih (h.shift hc.2)
      · exact h

theorem shortest_atMost (x : Binary64) :
    Decimal.AtMost x.interval.bound x.shortest.1 x.shortest.2 := by
  unfold shortest
  split
  · unfold Decimal.AtMost
    simp
  · have hmiddle : x.interval.middle ≤ x.interval.high := Nat.le_add_right ..
    have hgrid := Interval.grid_search_le hmiddle 17 (decimalOrder x.ratio.1 x.ratio.2)
    exact withoutZeros_atMost 17 (Interval.atMost_of_grid_le hgrid)

theorem natAbs_nearestInt_le (x : Binary64) : x.toDecimal.nearestInt.natAbs ≤ x.interval.bound := by
  have hshortest := shortest_atMost x
  unfold toDecimal
  split
  · exact Nat.zero_le _
  · split
    · exact Nat.zero_le _
    · split
      next c e hx =>
        rw [hx] at hshortest
        split
        · next hwhole =>
            rw [Decimal.natAbs_nearestInt_finite]
            apply Decimal.AtMost.roundHalfUp_le
            unfold Decimal.AtMost at hshortest ⊢
            dsimp only at hshortest
            have hzero : (-e).toNat = 0 := by omega
            have hpow : Nat.pow 10 (e.toNat + 1) = 10 * Nat.pow 10 e.toNat := Nat.pow_succ'
            have hone : Nat.pow 10 0 = 1 := rfl
            rw [hzero, hone, Nat.mul_one] at hshortest
            calc c * Nat.pow 10 (e.toNat + 1) * 1
                = 10 * (c * Nat.pow 10 e.toNat) := by rw [hpow]; ring
              _ ≤ 10 * x.interval.bound := Nat.mul_le_mul_left _ hshortest
              _ = x.interval.bound * 10 := Nat.mul_comm ..
        · rw [Decimal.natAbs_nearestInt_finite]
          exact hshortest.roundHalfUp_le

theorem exponentField_lt (x : Binary64) : x.exponentField < 2048 := Nat.mod_lt _ (by decide)

theorem mul_two_pow_lt {a k m n p : Nat} (ha : a ≤ Nat.pow 2 k) (hp : p ≤ m) (h : k + m < n) :
    a * Nat.pow 2 p < Nat.pow 10 n :=
  calc a * Nat.pow 2 p ≤ Nat.pow 2 k * Nat.pow 2 m :=
        Nat.mul_le_mul ha (Nat.pow_le_pow_right (by decide) hp)
    _ = Nat.pow 2 (k + m) := (Nat.pow_add ..).symm
    _ ≤ Nat.pow 10 (k + m) := Nat.pow_le_pow_left (by decide) _
    _ < Nat.pow 10 n := Nat.pow_lt_pow_right (by decide) h

/-- The upper end of the interval has few enough digits to be written. -/
theorem bound_lt (x : Binary64) : x.interval.bound < Nat.pow 10 Numeral.longest := by
  have hsignificand : x.significand < 2 * fractions := by
    have hfraction : x.fractionField < fractions := Nat.mod_lt _ (by decide)
    unfold significand
    split
    · omega
    · omega
  have hpower : x.interval.power.toNat ≤ 970 := by
    have hfield := exponentField_lt x
    have hpower : x.interval.power = x.exponent - 2 := rfl
    rw [hpower, exponent]
    split
    · decide
    · omega
  have hhigh : x.interval.high ≤ Nat.pow 2 56 := by
    have heq : x.interval.high = 4 * x.significand + 2 := rfl
    have hpow : Nat.pow 2 56 = 16 * fractions := rfl
    omega
  exact mul_two_pow_lt hhigh hpower (by decide)

end Binary64

end SlotText
