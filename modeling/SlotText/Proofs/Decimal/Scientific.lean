import SlotText.Proofs.Decimal.ReadBack
import Mathlib.Data.List.DropRight

/-!
# Scientific numerals

A scientific numeral has one digit before its point, which is zero only in the numeral of zero, no
zero at the end of the digits behind it, and a power of ten. Unless the number is zero, the power is
the place of its first digit, and then the digits are the canonical expansion of what is left. So
every number has one scientific numeral, and two decimals have the same text if and only if they
stand for the same number with the same sign, whatever zeros and powers they are kept with.
-/
namespace SlotText

/-- One digit before the point, digits behind it that do not end in zero, and a power of ten. -/
structure Scientific where
  mantissa : Expansion
  order : Int
  canonical : mantissa.Canonical 10
  single : mantissa.whole.length = 1
  zero : mantissa.whole = [0] → mantissa.fraction = [] ∧ order = 0

namespace Scientific

variable {x y : Scientific} {negative negative' upper : Bool}

/-- The marker of the power of ten. -/
def marker (upper : Bool) : Char := if upper then 'E' else 'e'

theorem marker_eq (upper : Bool) : marker upper = 'e' ∨ marker upper = 'E' := by
  cases upper with
  | true => exact .inr rfl
  | false => exact .inl rfl

/-- The numeral as it is written. -/
def text (upper negative : Bool) (x : Scientific) : Text :=
  Decimal.signText negative ++
    (x.mantissa.text false ++ marker upper :: Decimal.exponentText x.order)

/-- The number that the numeral stands for. -/
def value (x : Scientific) : ℚ := x.mantissa.value 10 * 10 ^ x.order

theorem value_nonneg (x : Scientific) : 0 ≤ x.value :=
  mul_nonneg (Expansion.value_nonneg 10 _) (zpow_nonneg (by norm_num) _)

theorem mantissa_bounds (h : x.mantissa.whole ≠ [0]) :
    1 ≤ x.mantissa.value 10 ∧ x.mantissa.value 10 < 10 := by
  obtain ⟨d, hd⟩ := List.length_eq_one_iff.mp x.single
  have hlt : d < 10 := x.canonical.whole_lt d (by rw [hd]; exact List.mem_cons_self)
  have hpos : d ≠ 0 := by
    rintro rfl
    exact h hd
  obtain ⟨hlow, hhigh⟩ := x.canonical.value_bounds (by decide)
  have hvalue : Numeral.value 10 x.mantissa.whole = d := by
    rw [hd]
    exact Nat.zero_add d
  rw [hvalue] at hlow hhigh
  have hone : (1 : ℚ) ≤ d := by exact_mod_cast Nat.pos_of_ne_zero hpos
  have hten : (d : ℚ) + 1 ≤ 10 := by exact_mod_cast hlt
  exact ⟨hone.trans hlow, hhigh.trans_le hten⟩

theorem value_of_whole_eq_zero (h : x.mantissa.whole = [0]) : x.value = 0 := by
  have hmantissa : x.mantissa = ⟨[0], []⟩ := by
    rw [← h, ← (x.zero h).1]
  have hzero : Numeral.value 10 [0] = 0 := rfl
  rw [value, hmantissa, Expansion.value_of_fraction_eq_nil, hzero, Nat.cast_zero, zero_mul]

/-- The first digit is zero only in the numeral of zero. -/
theorem whole_eq_zero_iff (x : Scientific) : x.mantissa.whole = [0] ↔ x.value = 0 := by
  refine ⟨value_of_whole_eq_zero, fun h => ?_⟩
  by_contra hne
  have hpos : 0 < x.mantissa.value 10 := zero_lt_one.trans_le (mantissa_bounds hne).1
  exact (mul_pos hpos (zpow_pos (by norm_num) x.order)).ne' h

theorem order_eq_log (h : x.value ≠ 0) : x.order = Int.log 10 x.value := by
  obtain ⟨hlow, hhigh⟩ := mantissa_bounds (mt x.whole_eq_zero_iff.mp h)
  have hpow : (0 : ℚ) < 10 ^ x.order := zpow_pos (by norm_num) x.order
  symm
  apply Decimal.log_eq_of_le_of_lt (by decide) (x.value_nonneg.lt_of_ne' h)
  · exact le_mul_of_one_le_left hpow.le hlow
  · rw [Nat.cast_ofNat, zpow_add₀ (by norm_num), zpow_one, mul_comm]
    exact mul_lt_mul_of_pos_right hhigh hpow

theorem eq_of_value_eq (h : x.value = y.value) : x = y := by
  have horder : x.order = y.order := by
    by_cases hzero : x.value = 0
    · have hx := (x.zero (x.whole_eq_zero_iff.mpr hzero)).2
      have hy := (y.zero (y.whole_eq_zero_iff.mpr (h.symm.trans hzero))).2
      rw [hx, hy]
    · rw [order_eq_log hzero, h, order_eq_log fun hy => hzero (h.trans hy)]
  have hmantissa : x.mantissa = y.mantissa := by
    apply x.canonical.eq_of_value_eq (by decide) y.canonical
    rw [value, value, horder] at h
    exact mul_right_cancel₀ (zpow_ne_zero _ (by norm_num)) h
  cases x
  cases y
  cases horder
  cases hmantissa
  rfl

theorem exists_ofText? (upper negative : Bool) (x : Scientific) :
    ∃ d, Decimal.ofText? (x.text upper negative) = some d ∧ d.isNegative = negative ∧
      d.toRat = withSign negative x.value := by
  have hread := Decimal.ofText?_text x.canonical.toValid
    (Decimal.power_exponentText (marker_eq upper) x.order) negative
  exact ⟨_, hread, rfl, Decimal.toRat_ofText x.mantissa x.order negative⟩

theorem eq_of_text_eq (h : x.text upper negative = y.text upper negative') :
    x = y ∧ negative = negative' := by
  obtain ⟨d, hx, rfl, hxvalue⟩ := exists_ofText? upper negative x
  obtain ⟨d', hy, rfl, hyvalue⟩ := exists_ofText? upper negative' y
  rw [h, hy, Option.some.injEq] at hx
  subst hx
  have hvalue : x.value = y.value := by
    rw [← abs_withSign x.value_nonneg d'.isNegative, ← hxvalue, hyvalue,
      abs_withSign y.value_nonneg]
  exact ⟨eq_of_value_eq hvalue, rfl⟩

end Scientific

namespace Numeral

variable {ds : List Nat}

theorem trimZeros_eq_rdropWhile (ds : List Nat) : trimZeros ds = ds.rdropWhile (· == 0) := rfl

theorem exists_zeros (ds : List Nat) : ∃ n, ds = trimZeros ds ++ List.replicate n 0 := by
  induction ds using List.reverseRecOn with
  | nil => exact ⟨0, rfl⟩
  | append_singleton ds d ih =>
      rw [trimZeros_eq_rdropWhile]
      by_cases hd : d = 0
      · obtain ⟨n, hn⟩ := ih
        refine ⟨n + 1, ?_⟩
        have hdrop : (d == 0) = true := beq_iff_eq.mpr hd
        rw [List.rdropWhile_concat_pos (· == 0) ds d hdrop, ← trimZeros_eq_rdropWhile,
          List.replicate_succ', ← List.append_assoc, ← hn, hd]
      · refine ⟨0, ?_⟩
        have hkeep : ¬(d == 0) = true := mt beq_iff_eq.mp hd
        rw [List.rdropWhile_concat_neg (· == 0) ds d hkeep, List.replicate_zero, List.append_nil]

theorem getLast?_trimZeros (ds : List Nat) : (trimZeros ds).getLast? ≠ some 0 := by
  intro h
  have hne : ds.rdropWhile (· == 0) ≠ [] := by
    intro hnil
    rw [trimZeros_eq_rdropWhile, hnil] at h
    cases h
  rw [trimZeros_eq_rdropWhile, List.getLast?_eq_getLast_of_ne_nil hne, Option.some.injEq] at h
  exact List.rdropWhile_last_not _ _ hne (beq_iff_eq.mpr h)

end Numeral

namespace Scientific

/-- The numeral of zero. -/
def ofZero : Scientific where
  mantissa := ⟨[0], []⟩
  order := 0
  canonical := ⟨⟨by simp, by simp, by simp⟩, fun _ => rfl, by simp⟩
  single := rfl
  zero _ := ⟨rfl, rfl⟩

/-- A digit that is not zero, others behind the point, and a power of ten. -/
def ofDigits {d : Nat} {ds : List Nat} (hd : d ≠ 0) (hlt : ∀ y ∈ d :: ds, y < 10)
    (hlast : ds.getLast? ≠ some 0) (order : Int) : Scientific where
  mantissa := ⟨[d], ds⟩
  order := order
  canonical :=
    { whole_ne_nil := List.cons_ne_nil d []
      whole_lt := fun y hy => hlt y (List.mem_singleton.mp hy ▸ List.mem_cons_self)
      fraction_lt := fun y hy => hlt y (List.mem_cons_of_mem d hy)
      leading := fun hzero => absurd (Option.some.inj hzero) hd
      trailing := hlast }
  single := rfl
  zero hzero := absurd (List.cons.inj hzero).1 hd

variable {d : Nat} {ds : List Nat} {hd : d ≠ 0} {hlt : ∀ y ∈ d :: ds, y < 10}
  {hlast : ds.getLast? ≠ some 0}

theorem placed_one (d : Nat) (ds : List Nat) : Expansion.placed (d :: ds) 1 = ⟨[d], ds⟩ := by
  simp [Expansion.placed]

theorem text_ofDigits (upper negative : Bool) (k : Int) :
    (ofDigits hd hlt hlast k).text upper negative = Decimal.signText negative ++
      Decimal.placeExponent (marker upper) ((d :: ds).map Numeral.sign) k := by
  rw [Decimal.placeExponent, Decimal.placePoint_map_sign (List.cons_ne_nil d ds), placed_one]
  rfl

theorem value_ofDigits (k : Int) : (ofDigits hd hlt hlast k).value =
    Numeral.value 10 (d :: ds) * 10 ^ (k + 1 - ((d :: ds).length : Int)) := by
  have hplaced := @Expansion.value_placed 10 (d :: ds) (List.cons_ne_nil d ds) 1
  have horder : k + 1 - ((d :: ds).length : Int) = 1 - ((d :: ds).length : Int) + k := by omega
  rw [placed_one, Nat.cast_ofNat] at hplaced
  rw [horder, zpow_add₀ (by norm_num), ← mul_assoc, ← hplaced]
  rfl

end Scientific

namespace Decimal

variable {c : Nat} {e : Int}

/-- The digits of a coefficient but zero, the first one apart and zeros at the end apart. -/
theorem exists_trimmed (hc : c ≠ 0) : ∃ d ds n,
    Numeral.trimZeros (Numeral.digits 10 c) = d :: ds ∧
      Numeral.digits 10 c = d :: ds ++ List.replicate n 0 ∧
      d ≠ 0 ∧ (∀ y ∈ d :: ds, y < 10) ∧ ds.getLast? ≠ some 0 := by
  obtain ⟨d, ds, htrim⟩ := List.exists_cons_of_ne_nil (Numeral.trimZeros_digits_ne_nil hc)
  obtain ⟨n, hn⟩ := Numeral.exists_zeros (Numeral.digits 10 c)
  have hlast := Numeral.getLast?_trimZeros (Numeral.digits 10 c)
  have hlt : ∀ y ∈ Numeral.trimZeros (Numeral.digits 10 c), y < 10 :=
    Numeral.lt_of_mem_trimZeros fun _ => Numeral.lt_of_mem_digits (by decide)
  have hhead : (Numeral.digits 10 c).head? ≠ some 0 := Numeral.head?_digits_ne_zero (by decide) hc
  rw [htrim] at hn hlast hlt
  refine ⟨d, ds, n, htrim, hn, ?_, hlt, ?_⟩
  · rintro rfl
    exact hhead (by rw [hn]; rfl)
  · cases ds with
    | nil => simp
    | cons _ ds => rwa [List.getLast?_cons_cons] at hlast

/-- A finite decimal is written as the scientific numeral of its magnitude. -/
theorem exists_scientific (negative : Bool) (c : Nat) (e : Int) :
    ∃ x : Scientific, x.value = c * 10 ^ e ∧ ∀ upper, (finite negative c e).scientificText upper =
      x.text upper negative := by
  by_cases hc : c = 0
  · refine ⟨.ofZero, ?_, fun upper => ?_⟩
    · rw [Scientific.value_of_whole_eq_zero rfl, magnitude_eq_zero_iff.mpr hc]
    · rw [hc]
      rfl
  · obtain ⟨d, ds, n, htrim, hdigits, hd, hlt, hlast⟩ := exists_trimmed hc
    refine ⟨.ofDigits hd hlt hlast (e + (Numeral.digits 10 c).length - 1), ?_, fun upper => ?_⟩
    · -- The power counts the zeros at the end too, so leaving them out does not change it.
      have hlength : (Numeral.digits 10 c).length = (d :: ds).length + n := by
        rw [hdigits, List.length_append, List.length_replicate]
      have hvalue : c = Numeral.value 10 (d :: ds) * 10 ^ n := by
        rw [← Numeral.value_append_zeros, ← hdigits, Numeral.value_digits 10 (by decide)]
      have horder : e + (Numeral.digits 10 c).length - 1 + 1 - ((d :: ds).length : Int) =
          n + e := by omega
      have hcast : (c : ℚ) = Numeral.value 10 (d :: ds) * 10 ^ n := by exact_mod_cast hvalue
      rw [Scientific.value_ofDigits, horder, hcast, zpow_add₀ (by norm_num), zpow_natCast,
        mul_assoc]
    · rw [Scientific.text_ofDigits, ← htrim]
      simp only [scientificText, if_neg hc]
      rfl

end Decimal

theorem Decimal.toRat_ofInt (m : Int) : (ofInt m).toRat = m := by
  rw [ofInt, toRat, zpow_zero, mul_one, withSign_natCast]
  simp only [decide_eq_true_eq, ite_neg_natAbs]

theorem Decimal.withSign_abs_toRat (d : Decimal) : withSign d.isNegative |d.toRat| = d.toRat := by
  cases d with
  | finite negative c e => rw [abs_toRat, toRat, isNegative]
  | infinite negative => exact withSign_eq_zero_iff.mpr abs_zero
  | nan negative signaling payload => exact withSign_eq_zero_iff.mpr abs_zero

/-- A power of ten has its sign and a numeral without zeros in front. -/
theorem Decimal.exists_exponentText (k : Int) : ∃ x : Expansion, x.Canonical 10 ∧
    x.fraction = [] ∧ x.value 10 = k.natAbs ∧
      exponentText k = (if 0 ≤ k then '+' else '-') :: x.text false := by
  refine ⟨⟨Numeral.digits 10 k.natAbs, []⟩, Expansion.canonical_digits (by decide) _, rfl,
    Expansion.value_digits (by decide) _, ?_⟩
  have hsign : (if k < 0 then '-' else '+') = if 0 ≤ k then '+' else '-' := by
    rw [← ite_not]
    simp only [Int.not_lt]
  rw [exponentText, hsign, Expansion.text_of_fraction_eq_nil]
  rfl

namespace Number

variable {n n' : Number}

theorem exists_scientific (hn : n.isFinite = true) : ∃ x : Scientific,
    x.value = |n.toDecimal.toRat| ∧ ∀ upper, n.toDecimal.scientificText upper =
      x.text upper n.toDecimal.isNegative := by
  obtain ⟨negative, c, e, hd⟩ := Decimal.exists_finite (isFinite_toDecimal hn)
  obtain ⟨x, hvalue, htext⟩ := Decimal.exists_scientific negative c e
  rw [hd, Decimal.abs_toRat]
  exact ⟨x, hvalue, htext⟩

/-- Numbers have the same text if and only if they are the same with the same sign. -/
theorem scientificText_eq_iff (hn : n.isFinite = true) (hn' : n'.isFinite = true) (upper : Bool) :
    n.toDecimal.scientificText upper = n'.toDecimal.scientificText upper ↔
      n.toDecimal.toRat = n'.toDecimal.toRat ∧
        n.toDecimal.isNegative = n'.toDecimal.isNegative := by
  obtain ⟨x, hx, htext⟩ := exists_scientific hn
  obtain ⟨x', hx', htext'⟩ := exists_scientific hn'
  rw [htext, htext']
  constructor
  · intro heq
    obtain ⟨rfl, hnegative⟩ := Scientific.eq_of_text_eq heq
    refine ⟨?_, hnegative⟩
    rw [← Decimal.withSign_abs_toRat, ← hx, hnegative, hx', Decimal.withSign_abs_toRat]
  · rintro ⟨hvalue, hnegative⟩
    have heq : x = x' := Scientific.eq_of_value_eq (by rw [hx, hvalue, hx'])
    rw [heq, hnegative]

/-- The scientific text of a finite number is a scientific numeral of the number with its sign, and
the same one in both cases of the marker. A whole number counts as itself and a float as the decimal
that its text is a numeral of. Two numbers of any types have the same text if and only if they are
equal as decimals and have the same sign. -/
theorem scientificText_exact (hn : n.isFinite = true) (hn' : n'.isFinite = true) :
    (∀ m, n = .int m → n.toDecimal.toRat = m) ∧
    (∀ x, n = .float x → Decimal.ofText? x.text = some n.toDecimal) ∧
    (∃ x : Scientific, x.value = |n.toDecimal.toRat| ∧
      (x.mantissa.whole = [0] ↔ n.toDecimal.toRat = 0) ∧
      (∃ k : Expansion, k.Canonical 10 ∧ k.fraction = [] ∧ k.value 10 = x.order.natAbs ∧
        Decimal.exponentText x.order = (if 0 ≤ x.order then '+' else '-') :: k.text false) ∧
      ∀ upper, n.toDecimal.scientificText upper =
        x.text upper n.toDecimal.isNegative) ∧
    ∀ upper, n.toDecimal.scientificText upper = n'.toDecimal.scientificText upper ↔
      n.toDecimal.toRat = n'.toDecimal.toRat ∧
        n.toDecimal.isNegative = n'.toDecimal.isNegative := by
  refine ⟨?_, ?_, ?_, scientificText_eq_iff hn hn'⟩
  · rintro m rfl
    exact Decimal.toRat_ofInt m
  · rintro x rfl
    exact Binary64.ofText?_text hn
  · obtain ⟨x, hvalue, htext⟩ := exists_scientific hn
    refine ⟨x, hvalue, ?_, Decimal.exists_exponentText x.order, htext⟩
    rw [x.whole_eq_zero_iff, hvalue, abs_eq_zero]

/-- A whole number and a decimal without its zeros. -/
theorem scientificText_exact_zeros :
    let n : Number := .int 1500
    let d : Number := .decimal (.finite false 15 2)
    n.toDecimal.toRat = 1500 ∧ n.toDecimal.scientificText false = d.toDecimal.scientificText false ∧
      d.toDecimal.scientificText false = "1.5e+3".toList := by
  intro n d
  have hd : d.toDecimal.toRat = 1500 := by
    norm_num [d, toDecimal, Decimal.toRat, withSign]
  have hexact := @scientificText_exact n d rfl rfl
  have hn := hexact.1 1500 rfl
  have hequal : n.toDecimal.toRat = d.toDecimal.toRat := by rw [hn, hd]; norm_num
  refine ⟨by rw [hn]; norm_num, (hexact.2.2.2 false).mpr ⟨hequal, rfl⟩, by decide⟩

end Number

end SlotText
