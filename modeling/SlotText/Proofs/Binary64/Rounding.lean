import SlotText.Proofs.Binary64.Parts

/-!
# Rounding to a float

Rounding a number scales it by the power of two at which the significand has 53 binary digits, or by
the smallest one if it is too small for that, and takes the nearest whole number, the even one of
two. The pattern is the sum of the two fields, also where this whole number is too large by one for
a significand. If it has no room in the pattern, the result is infinite.

No finite float is nearer to the number than the result, and if another one is as near, then the
result has the even significand. A number that is a float already is kept. Rounding a decimal is
rounding the number that it stands for, so it makes no difference how the decimal is written.
-/
namespace SlotText.Binary64

variable {x y : Binary64} {r : ℚ} {num den n : Nat} {negative : Bool}

/-- A number `a` is at least as near to `r` as `b` is, and if both are as near and they differ, then
`even` holds. -/
structure Nearer (r a b : ℚ) (even : Prop) : Prop where
  le : |r - a| ≤ |r - b|
  even_of_eq : |r - a| = |r - b| → b ≠ a → even

theorem Nearer.of_lt {a b : ℚ} {even : Prop} (h : |r - a| < |r - b|) : Nearer r a b even :=
  ⟨h.le, fun heq => absurd heq h.ne⟩

theorem Nearer.imp {a b : ℚ} {even even' : Prop} (h : Nearer r a b even) (himp : even → even') :
    Nearer r a b even' :=
  ⟨h.le, fun heq hne => himp (h.even_of_eq heq hne)⟩

theorem abs_sub_units (u : Int) (a : ℚ) : |r - a * 2 ^ u| = |r / 2 ^ u - a| * 2 ^ u := by
  have hu := two_zpow_pos u
  rw [← abs_of_pos hu, ← abs_mul, abs_of_pos hu, sub_mul, div_mul_cancel₀ _ hu.ne']

theorem Nearer.scale {a b : ℚ} {even : Prop} {u : Int} (h : Nearer (r / 2 ^ u) a b even) :
    Nearer r (a * 2 ^ u) (b * 2 ^ u) even := by
  have hu := two_zpow_pos u
  refine ⟨?_, fun heq hne => h.even_of_eq ?_ ?_⟩
  · rw [abs_sub_units, abs_sub_units]
    exact mul_le_mul_of_nonneg_right h.le hu.le
  · rw [abs_sub_units, abs_sub_units] at heq
    exact mul_right_cancel₀ hu.ne' heq
  · rintro rfl
    exact hne rfl

/-- The whole number nearest to a number that is not negative, halves going to the even one. -/
def nearestEven (r : ℚ) : Nat :=
  if 1 / 2 < r - ⌊r⌋₊ ∨ (r - ⌊r⌋₊ = 1 / 2 ∧ ⌊r⌋₊ % 2 = 1) then ⌊r⌋₊ + 1 else ⌊r⌋₊

theorem roundHalfEven_eq (hden : 0 < den) :
    roundHalfEven num den = nearestEven ((num : ℚ) / den) := by
  have hpos : (0 : ℚ) < den := by exact_mod_cast hden
  have hremainder : (num : ℚ) / den - ((num / den : ℕ) : ℚ) = ((num % den : ℕ) : ℚ) / den := by
    have hsplit : (num : ℚ) = den * ((num / den : ℕ) : ℚ) + ((num % den : ℕ) : ℚ) := by
      exact_mod_cast (Nat.div_add_mod num den).symm
    rw [div_sub' hpos.ne', div_left_inj' hpos.ne']
    linarith
  have hlt : 1 / 2 < ((num % den : ℕ) : ℚ) / den ↔ den < 2 * (num % den) := by
    rw [div_lt_div_iff₀ two_pos hpos, one_mul, mul_comm]
    exact_mod_cast Iff.rfl
  have heq : ((num % den : ℕ) : ℚ) / den = 1 / 2 ↔ den = 2 * (num % den) := by
    rw [div_eq_div_iff hpos.ne' two_ne_zero, one_mul, mul_comm, eq_comm]
    exact_mod_cast Iff.rfl
  unfold nearestEven roundHalfEven
  simp only [Nat.floor_div_eq_div, hremainder, hlt, heq]

theorem abs_sub_nearestEven (hr : 0 ≤ r) : |r - nearestEven r| ≤ 1 / 2 ∧
    (|r - nearestEven r| = 1 / 2 → nearestEven r % 2 = 0) := by
  have hfloor := Nat.floor_le hr
  have hceil := Nat.lt_floor_add_one r
  unfold nearestEven
  split
  · next h =>
      have hhalf : 1 / 2 ≤ r - ⌊r⌋₊ := h.elim le_of_lt fun h => h.1.ge
      push_cast
      rw [abs_of_nonpos (by linarith)]
      refine ⟨by linarith, fun heq => ?_⟩
      rcases h with h | h
      · linarith
      · omega
  · next h =>
      rw [not_or, not_and] at h
      rw [abs_of_nonneg (by linarith)]
      refine ⟨by linarith, fun heq => ?_⟩
      have hodd := h.2 heq
      omega

/-- No whole number is nearer, and of two that are equally near the even one is taken. -/
theorem nearer_nearestEven (hr : 0 ≤ r) (k : Nat) :
    Nearer r (nearestEven r) k (nearestEven r % 2 = 0) := by
  obtain ⟨hhalf, heven⟩ := abs_sub_nearestEven hr
  by_cases hk : k = nearestEven r
  · rw [hk]
    exact ⟨le_rfl, fun _ hne => absurd rfl hne⟩
  · have hone : (1 : ℚ) ≤ |(nearestEven r : ℚ) - k| := by
      have hint : (1 : ℤ) ≤ |(nearestEven r : ℤ) - k| := by
        apply Int.one_le_abs
        omega
      exact_mod_cast hint
    have htriangle : |(nearestEven r : ℚ) - k| ≤ |r - nearestEven r| + |r - k| := by
      rw [abs_sub_comm r (nearestEven r)]
      exact abs_sub_le _ _ _
    exact ⟨by linarith, fun heq _ => heven (by linarith)⟩

theorem le_nearestEven (h : (n : ℚ) ≤ r) : n ≤ nearestEven r := by
  have hfloor := Nat.le_floor h
  unfold nearestEven
  split
  · omega
  · exact hfloor

theorem nearestEven_le_of_lt (hr : 0 ≤ r) (h : r < n) : nearestEven r ≤ n := by
  have hfloor := (Nat.floor_lt hr).mpr h
  unfold nearestEven
  split
  · omega
  · omega

/-- A number rounds below an even one only if it is more than a half below it. -/
theorem nearestEven_lt_iff (hr : 0 ≤ r) (hn : n % 2 = 0) : nearestEven r < n ↔ r < n - 1 / 2 := by
  obtain ⟨hhalf, heven⟩ := abs_sub_nearestEven hr
  obtain ⟨hlow, hhigh⟩ := abs_le.mp hhalf
  constructor
  · intro hlt
    have hle : (nearestEven r : ℚ) + 1 ≤ n := by exact_mod_cast hlt
    apply lt_of_le_of_ne (by linarith)
    intro heq
    have hsub : r - nearestEven r = 1 / 2 := by linarith
    have hsucc : (nearestEven r : ℚ) + 1 = n := by linarith
    have hodd : nearestEven r + 1 = n := by exact_mod_cast hsucc
    have hmod := heven (by rw [hsub, abs_of_pos (by norm_num)])
    omega
  · intro hlt
    have hle : (nearestEven r : ℚ) < n := by linarith
    exact_mod_cast hle

theorem log2_bounds (hn : n ≠ 0) :
    (2 : ℚ) ^ (n.log2 : Int) ≤ n ∧ n < (2 : ℚ) ^ ((n.log2 : Int) + 1) := by
  have hle : 2 ^ n.log2 ≤ n := Nat.log2_self_le hn
  have hlt : n < 2 ^ (n.log2 + 1) := Nat.lt_log2_self
  constructor
  · exact_mod_cast hle
  · exact_mod_cast hlt

/-- A ratio on the scale of a power of two. -/
theorem scaled_ratio (num den : Nat) (q : Int) :
    ((num * Nat.pow 2 (-q).toNat : ℕ) : ℚ) / ((den * Nat.pow 2 q.toNat : ℕ) : ℚ) =
      (num : ℚ) / den / 2 ^ q := by
  rw [Nat.cast_mul, Nat.cast_mul, cast_natPow, cast_natPow, Nat.cast_ofNat,
    zpow_eq_div (by norm_num) q, div_div_eq_mul_div, div_mul_eq_mul_div, div_div]

theorem binaryOrder_eq (hnum : num ≠ 0) (hden : den ≠ 0) :
    binaryOrder num den = Int.log 2 ((num : ℚ) / den) := by
  obtain ⟨hnum₁, hnum₂⟩ := log2_bounds hnum
  obtain ⟨hden₁, hden₂⟩ := log2_bounds hden
  have hnum₀ : (0 : ℚ) < num := by exact_mod_cast Nat.pos_of_ne_zero hnum
  have hden₀ : (0 : ℚ) < den := by exact_mod_cast Nat.pos_of_ne_zero hden
  have hpos : (0 : ℚ) < (num : ℚ) / den := div_pos hnum₀ hden₀
  have htwo : (2 : ℚ) ≠ 0 := by norm_num
  unfold binaryOrder
  -- The difference of the two orders is the order of the ratio or larger by one.
  generalize he : (num.log2 : Int) - den.log2 = e
  have hlow : (2 : ℚ) ^ (e - 1) ≤ (num : ℚ) / den := by
    have hexponent : e - 1 = num.log2 - (den.log2 + 1) := by omega
    rw [hexponent, zpow_sub₀ htwo]
    exact div_le_div₀ hnum₀.le hnum₁ hden₀ hden₂.le
  have hhigh : (num : ℚ) / den < 2 ^ (e + 1) := by
    have hexponent : e + 1 = num.log2 + 1 - den.log2 := by omega
    rw [hexponent, zpow_sub₀ htwo]
    exact div_lt_div₀ hnum₂ hden₁ (two_zpow_pos _).le (two_zpow_pos _)
  have hcompare : num * Nat.pow 2 (-e).toNat < den * Nat.pow 2 e.toNat ↔
      (num : ℚ) / den < 2 ^ e := by
    have hscale : (0 : ℚ) < ((den * Nat.pow 2 e.toNat : ℕ) : ℚ) := by
      exact_mod_cast Nat.mul_pos (Nat.pos_of_ne_zero hden) (Nat.pow_pos (by decide))
    rw [← div_lt_one (two_zpow_pos e), ← scaled_ratio, div_lt_one hscale, Nat.cast_lt]
  symm
  dsimp only
  split
  · next hlt =>
      apply Decimal.log_eq_of_le_of_lt (by decide) hpos hlow
      rw [Int.sub_add_cancel]
      exact hcompare.mp hlt
  · next hlt =>
      have hle := not_lt.mp (mt hcompare.mpr hlt)
      exact Decimal.log_eq_of_le_of_lt (by decide) hpos hle hhigh

/-- The power of two of the unit to which a number is rounded. -/
def unit (r : ℚ) : Int := max (Int.log 2 r - 52) (-1074)

/-- The nearest number of units, in its place in the pattern. -/
def pattern (r : ℚ) : Nat :=
  if r = 0 then 0 else (unit r + 1074).toNat * fractions + nearestEven (r / 2 ^ unit r)

/-- The nearest float with a sign; infinite if the pattern has no room. -/
def rounded (negative : Bool) (r : ℚ) : Binary64 :=
  ofMagnitudeBits negative (min (pattern r) infinityBits)

theorem ofRatio_eq (hden : den ≠ 0) (negative : Bool) (num : Nat) :
    ofRatio negative num den = rounded negative ((num : ℚ) / den) := by
  have hden' : (den : ℚ) ≠ 0 := by exact_mod_cast hden
  unfold ofRatio rounded pattern
  split
  · next hnum => rw [hnum, Nat.cast_zero, zero_div, if_pos rfl, Nat.zero_min]
  · next hnum =>
      have hratio : (num : ℚ) / den ≠ 0 := div_ne_zero (by exact_mod_cast hnum) hden'
      have hpos : ∀ k, 0 < den * Nat.pow 2 k := fun k =>
        Nat.mul_pos (Nat.pos_of_ne_zero hden) (Nat.pow_pos (by decide))
      simp only [binaryOrder_eq hnum hden, roundHalfEven_eq (hpos _), scaled_ratio, if_neg hratio]
      rfl

/-- The smallest magnitude that does not round to a finite float, half a unit above the last one. -/
def overflow : ℚ := (2 ^ 54 - 1) * 2 ^ (970 : ℤ)

theorem overflow_bounds : (2 : ℚ) ^ (1023 : ℤ) < overflow ∧ overflow ≤ 2 ^ (1024 : ℤ) := by
  have hlow : (2 : ℚ) ^ (1023 : ℤ) = 2 ^ (53 : ℤ) * 2 ^ (970 : ℤ) := zpow_add₀ (by norm_num) 53 970
  have hhigh : (2 : ℚ) ^ (1024 : ℤ) = 2 ^ (54 : ℤ) * 2 ^ (970 : ℤ) := zpow_add₀ (by norm_num) 54 970
  rw [hlow, hhigh, overflow]
  constructor
  · exact mul_lt_mul_of_pos_right (by norm_num) (two_zpow_pos _)
  · exact mul_le_mul_of_nonneg_right (by norm_num) (two_zpow_pos _).le

/-- Above the smallest unit, a number has all digits of a significand. -/
theorem le_div_unit (hr : 0 < r) (hunit : unit r ≠ -1074) : (fractions : ℚ) ≤ r / 2 ^ unit r := by
  have hlog : Int.log 2 r = unit r + 52 := by
    unfold unit at hunit ⊢
    omega
  have hle := Int.zpow_log_le_self (b := 2) (by decide) hr
  rw [hlog, Nat.cast_ofNat, zpow_add₀ (by norm_num), mul_comm] at hle
  rw [le_div_iff₀ (two_zpow_pos _)]
  exact_mod_cast hle

theorem div_unit_lt (r : ℚ) : r / 2 ^ unit r < (2 * fractions : ℕ) := by
  have hlog : Int.log 2 r + 1 ≤ 53 + unit r := by
    unfold unit
    omega
  have hlt := Int.lt_zpow_succ_log_self (b := 2) (by decide) r
  have hle : (2 : ℚ) ^ (Int.log 2 r + 1) ≤ 2 ^ (53 + unit r) :=
    zpow_le_zpow_right₀ (by norm_num) hlog
  have hsplit : (2 : ℚ) ^ (53 + unit r) = (2 * fractions : ℕ) * 2 ^ unit r := by
    rw [zpow_add₀ (by norm_num)]
    norm_num
  rw [div_lt_iff₀ (two_zpow_pos _), ← hsplit]
  exact hlt.trans_le hle

theorem unit_ge (r : ℚ) : -1074 ≤ unit r := le_max_right _ _

theorem pattern_zero : pattern 0 = 0 := if_pos rfl

theorem pattern_of_pos (hr : 0 < r) :
    pattern r = (unit r + 1074).toNat * fractions + nearestEven (r / 2 ^ unit r) := if_neg hr.ne'

theorem div_unit_nonneg (hr : 0 < r) : 0 ≤ r / 2 ^ unit r := (div_pos hr (two_zpow_pos _)).le

theorem significand_bounds (hr : 0 < r) : nearestEven (r / 2 ^ unit r) ≤ 2 * fractions ∧
    ((unit r + 1074).toNat = 0 ∨ fractions ≤ nearestEven (r / 2 ^ unit r)) := by
  refine ⟨nearestEven_le_of_lt (div_unit_nonneg hr) (div_unit_lt r), ?_⟩
  by_cases hunit : unit r = -1074
  · exact .inl (by omega)
  · exact .inr (le_nearestEven (le_div_unit hr hunit))

theorem lt_of_unit_lt (hr : 0 < r) (h : unit r < 971) : r < 2 ^ (1023 : ℤ) := by
  have hlog : Int.log 2 r < 1023 := by
    unfold unit at h
    omega
  exact_mod_cast (Int.lt_zpow_iff_log_lt (b := 2) (by decide) hr).mpr hlog

theorem le_of_lt_unit (hr : 0 < r) (h : 971 < unit r) : (2 : ℚ) ^ (1024 : ℤ) ≤ r := by
  have hlog : 1024 ≤ Int.log 2 r := by
    unfold unit at h
    omega
  exact_mod_cast (Int.zpow_le_iff_le_log (b := 2) (by decide) hr).mpr hlog

/-- In the last unit there is room for all significands below the one that carries. -/
theorem significand_lt_iff (hr : 0 < r) :
    nearestEven (r / 2 ^ (971 : ℤ)) < 2 * fractions ↔ r < overflow := by
  have hnonneg : 0 ≤ r / 2 ^ (971 : ℤ) := (div_pos hr (two_zpow_pos _)).le
  have hbound : ((2 * fractions : ℕ) - 1 / 2) * 2 ^ (971 : ℤ) = overflow := by
    have hsplit : (2 : ℚ) ^ (971 : ℤ) = 2 * 2 ^ (970 : ℤ) := zpow_add₀ (by norm_num) 1 970
    rw [hsplit, overflow, ← mul_assoc]
    congr 1
    norm_num
  rw [nearestEven_lt_iff hnonneg (by decide), div_lt_iff₀ (two_zpow_pos _), hbound]

theorem pattern_lt_iff (hr : 0 ≤ r) : pattern r < infinityBits ↔ r < overflow := by
  rcases hr.eq_or_lt with rfl | hr
  · rw [pattern_zero]
    exact iff_of_true (by decide) ((two_zpow_pos _).trans overflow_bounds.1)
  · obtain ⟨hle, hge⟩ := significand_bounds hr
    have hunit := unit_ge r
    rw [pattern_of_pos hr]
    unfold infinityBits
    rcases lt_trichotomy (unit r) 971 with h | h | h
    · refine iff_of_true ?_ ((lt_of_unit_lt hr h).trans overflow_bounds.1)
      unfold fractions at *
      omega
    · have hplaces : (971 + 1074 : ℤ).toNat = 2045 := rfl
      rw [← significand_lt_iff hr, h, hplaces]
      omega
    · refine iff_of_false ?_ (not_lt.mpr (overflow_bounds.2.trans (le_of_lt_unit hr h)))
      unfold fractions at *
      omega

theorem isFinite_rounded (hr : 0 ≤ r) : (rounded negative r).isFinite = true ↔ r < overflow := by
  rw [rounded, isFinite_ofMagnitudeBits (Nat.min_le_right _ _), min_lt_iff,
    or_iff_left (lt_irrefl _), pattern_lt_iff hr]

theorem isNegative_rounded (negative : Bool) (r : ℚ) :
    (rounded negative r).isNegative = negative := by
  apply isNegative_ofMagnitudeBits
  exact (Nat.min_le_right _ _).trans_lt (by decide)

/-- On the grid of its own exponent or of a smaller one, a float is a whole number of units. -/
theorem exists_units {q : Int} (h : q ≤ x.exponent) : ∃ j : ℕ, x.magnitude = j * 2 ^ q := by
  obtain ⟨k, hk⟩ := Int.le.dest h
  refine ⟨x.significand * 2 ^ k, ?_⟩
  rw [magnitude, ← hk, zpow_add₀ (by norm_num), zpow_natCast]
  push_cast
  ring

/-- Floats with a smaller exponent than the unit all lie below the number, and so does the first one
that has the unit. -/
theorem lt_of_exponent_lt (hr : 0 < r) (h : y.exponent < unit r) :
    y.magnitude < fractions * 2 ^ unit r ∧ fractions * 2 ^ unit r ≤ r := by
  have hunit : unit r ≠ -1074 := by
    have hge := y.exponent_ge
    omega
  refine ⟨?_, (le_div_iff₀ (two_zpow_pos _)).mp (le_div_unit hr hunit)⟩
  have hsignificand : (y.significand : ℚ) < (fractions : ℚ) * 2 ^ (1 : ℤ) := by
    rw [zpow_one, mul_comm]
    exact_mod_cast y.significand_lt
  calc y.magnitude < fractions * 2 ^ (1 : ℤ) * 2 ^ y.exponent :=
        mul_lt_mul_of_pos_right hsignificand (two_zpow_pos _)
    _ = fractions * 2 ^ (1 + y.exponent) := by rw [mul_assoc, ← zpow_add₀ (by norm_num)]
    _ ≤ fractions * 2 ^ unit r := by
        apply mul_le_mul_of_nonneg_left (zpow_le_zpow_right₀ (by norm_num) (by omega))
        exact Nat.cast_nonneg _

/-- The nearest number of units is nearest among all floats. -/
theorem nearer_units (hr : 0 < r) (y : Binary64) :
    Nearer r (nearestEven (r / 2 ^ unit r) * 2 ^ unit r) y.magnitude
      (nearestEven (r / 2 ^ unit r) % 2 = 0) := by
  have hnearest := nearer_nearestEven (div_unit_nonneg hr)
  rcases Int.lt_or_le y.exponent (unit r) with h | h
  · -- Between this float and the number lies the first float that has the unit.
    obtain ⟨hlow, hhigh⟩ := lt_of_exponent_lt hr h
    apply Nearer.of_lt
    calc |r - nearestEven (r / 2 ^ unit r) * 2 ^ unit r|
        ≤ |r - fractions * 2 ^ unit r| := (hnearest fractions).scale.le
      _ = r - fractions * 2 ^ unit r := abs_of_nonneg (sub_nonneg.mpr hhigh)
      _ < r - y.magnitude := sub_lt_sub_left hlow r
      _ ≤ |r - y.magnitude| := le_abs_self _
  · obtain ⟨j, hj⟩ := exists_units h
    rw [hj]
    exact (hnearest j).scale

theorem rounded_zero_magnitude (negative : Bool) : (rounded negative 0).magnitude = 0 ∧
    (rounded negative 0).significand % 2 = 0 := by
  have hparts := parts_ofMagnitudeBits (m := 0) (k := 0) (by decide) (.inl rfl) (by decide) negative
  rw [rounded, pattern_zero, Nat.zero_min]
  exact ⟨by simpa using hparts.1, hparts.2 rfl⟩

theorem nearer_rounded (hr : 0 ≤ r) (h : r < overflow) (negative : Bool) (y : Binary64) :
    Nearer r (rounded negative r).magnitude y.magnitude
      ((rounded negative r).significand % 2 = 0) := by
  rcases hr.eq_or_lt with rfl | hr
  · obtain ⟨hzero, heven⟩ := rounded_zero_magnitude negative
    refine ⟨?_, fun _ _ => heven⟩
    rw [hzero, sub_zero, abs_zero]
    exact abs_nonneg _
  · have hpattern := (pattern_lt_iff hr.le).mpr h
    obtain ⟨hle, hge⟩ := significand_bounds hr
    rw [rounded, Nat.min_eq_left hpattern.le]
    rw [pattern_of_pos hr] at hpattern ⊢
    obtain ⟨hmagnitude, heven⟩ := parts_ofMagnitudeBits hle hge hpattern negative
    have hunit : (((unit r + 1074).toNat : ℕ) : Int) - 1074 = unit r := by
      have := unit_ge r
      omega
    rw [hmagnitude, hunit]
    exact (nearer_units hr y).imp heven

/-- A float is nearest to a number if no finite float is nearer, and if its significand is even when
another float is as near. -/
structure Nearest (r : ℚ) (x : Binary64) : Prop where
  isFinite : x.isFinite = true
  le : ∀ y : Binary64, y.isFinite = true → |r - x.toRat| ≤ |r - y.toRat|
  even : ∀ y : Binary64, y.isFinite = true → |r - x.toRat| = |r - y.toRat| → y.toRat ≠ x.toRat →
    x.significand % 2 = 0

theorem nearest_rounded (hr : 0 ≤ r) (h : r < overflow) (negative : Bool) :
    Nearest (withSign negative r) (rounded negative r) := by
  have hx : (rounded negative r).toRat = withSign negative (rounded negative r).magnitude := by
    rw [toRat, isNegative_rounded]
  have hfar := fun y : Binary64 => abs_sub_le_withSign hr y.magnitude_nonneg negative y.isNegative
  refine ⟨(isFinite_rounded hr).mpr h, fun y _ => ?_, fun y _ heq hne => ?_⟩
  · rw [hx, abs_withSign_sub]
    exact (nearer_rounded hr h negative y).le.trans (hfar y)
  · obtain ⟨hle, heven⟩ := nearer_rounded hr h negative y
    rw [hx, abs_withSign_sub] at heq
    by_cases hmagnitude : y.magnitude = (rounded negative r).magnitude
    · -- Then the other float differs in its sign, and is as near only if both are zero.
      rcases hr.eq_or_lt with rfl | hr
      · exact (rounded_zero_magnitude negative).2
      · have hsign : negative ≠ y.isNegative := by
          rintro rfl
          exact hne (by rw [hx, ← hmagnitude, toRat])
        rw [← hmagnitude] at heq
        have hzero := eq_zero_of_abs_sub_eq hr y.magnitude_nonneg hsign heq
        exact absurd (by rw [hx, ← hmagnitude, toRat, hzero, withSign_eq_zero_iff.mpr rfl,
          withSign_eq_zero_iff.mpr rfl]) hne
    · exact heven (le_antisymm hle ((hfar y).trans_eq heq.symm)) hmagnitude

theorem magnitude_lt_overflow (hx : x.isFinite = true) : x.magnitude < overflow := by
  have hsignificand : (x.significand : ℚ) ≤ 2 ^ 53 - 1 := by
    have hlt : x.significand + 1 ≤ 2 ^ 53 := x.significand_lt
    have hcast : (x.significand : ℚ) + 1 ≤ 2 ^ 53 := by exact_mod_cast hlt
    linarith
  have hexponent : (2 : ℚ) ^ x.exponent ≤ 2 * 2 ^ (970 : ℤ) := by
    have hsplit : (2 : ℚ) ^ (971 : ℤ) = 2 * 2 ^ (970 : ℤ) := zpow_add₀ (by norm_num) 1 970
    rw [← hsplit]
    exact zpow_le_zpow_right₀ (by norm_num) (exponent_le hx)
  calc x.magnitude ≤ (2 ^ 53 - 1) * (2 * 2 ^ (970 : ℤ)) :=
        mul_le_mul hsignificand hexponent (two_zpow_pos _).le (by norm_num)
    _ = (2 ^ 54 - 2) * 2 ^ (970 : ℤ) := by ring
    _ < overflow := mul_lt_mul_of_pos_right (by norm_num) (two_zpow_pos _)

/-- A float rounds to itself, up to the sign. -/
theorem magnitude_rounded (hx : x.isFinite = true) (negative : Bool) :
    (rounded negative x.magnitude).magnitude = x.magnitude := by
  have hle := (nearer_rounded x.magnitude_nonneg (magnitude_lt_overflow hx) negative x).le
  rw [sub_self, abs_zero, abs_nonpos_iff, sub_eq_zero] at hle
  exact hle.symm

/-- Far below the smallest float everything rounds to zero. -/
theorem pattern_eq_zero (hr : 0 < r) (h : r < 10 ^ (-400 : ℤ)) : pattern r = 0 := by
  have hsmall : r < 2 ^ (-1076 : ℤ) := by
    apply h.trans
    have hpow : (2 : ℕ) ^ 1076 < 10 ^ 400 := by decide +kernel
    rw [zpow_neg, zpow_neg]
    exact inv_strictAnti₀ (two_zpow_pos _) (by exact_mod_cast hpow)
  have hlog : Int.log 2 r < -1076 :=
    (Int.lt_zpow_iff_log_lt (b := 2) (by decide) hr).mp (by exact_mod_cast hsmall)
  have hunit : unit r = -1074 := by
    unfold unit
    omega
  have hquarter : r / 2 ^ unit r < 1 / 2 := by
    have hsplit : (2 : ℚ) ^ (-1076 : ℤ) = 2 ^ (-2 : ℤ) * 2 ^ (-1074 : ℤ) :=
      zpow_add₀ (by norm_num) (-2) (-1074)
    rw [hsplit] at hsmall
    rw [hunit, div_lt_iff₀ (two_zpow_pos _)]
    exact hsmall.trans (mul_lt_mul_of_pos_right (by norm_num) (two_zpow_pos _))
  have hnearest : nearestEven (r / 2 ^ unit r) = 0 := by
    have hfloor : ⌊r / 2 ^ unit r⌋₊ = 0 := Nat.floor_eq_zero.mpr (by linarith)
    rw [nearestEven, hfloor, Nat.cast_zero, sub_zero]
    exact if_neg (not_or.mpr ⟨hquarter.not_gt, fun heq => hquarter.ne heq.1⟩)
  rw [pattern_of_pos hr, hnearest, hunit]
  rfl

/-- Far above the largest float there is no room in the pattern. -/
theorem infinityBits_le_pattern (h : 10 ^ (400 : ℤ) ≤ r) : infinityBits ≤ pattern r := by
  have hpow : (2 : ℕ) ^ 1024 ≤ 10 ^ 400 := by decide +kernel
  have hle : overflow ≤ r := (overflow_bounds.2.trans (by exact_mod_cast hpow)).trans h
  have hnonneg : 0 ≤ r := (zpow_nonneg (by norm_num) _).trans h
  exact Nat.le_of_not_lt (mt (pattern_lt_iff hnonneg).mp hle.not_gt)

/-- A finite decimal is taken for the float nearest to the number that it stands for. -/
theorem ofDecimal_eq (negative : Bool) (c : Nat) (e : Int) :
    ofDecimal (.finite negative c e) = rounded negative (c * 10 ^ e) := by
  have hratio : ofRatio negative (Decimal.ratio c e).1 (Decimal.ratio c e).2 =
      rounded negative (c * 10 ^ e) := by
    rw [← Decimal.ratio_eq]
    exact ofRatio_eq (Nat.pow_pos (by decide)).ne' negative _
  unfold ofDecimal
  dsimp only
  by_cases hc : c = 0
  · rw [if_pos (.inl hc), hc, Nat.cast_zero, zero_mul, rounded, pattern_zero, Nat.zero_min]
  · have hpos := Decimal.magnitude_pos (e := e) hc
    have horder := Decimal.log_magnitude (e := e) hc
    split
    · next hsmall =>
        have hlt : (c : ℚ) * 10 ^ e < 10 ^ (-400 : ℤ) := by
          apply (Int.lt_zpow_iff_log_lt (b := 10) (by decide) hpos).mpr
          have := hsmall.resolve_left hc
          unfold outmostOrder at this
          omega
        rw [rounded, pattern_eq_zero hpos hlt, Nat.zero_min]
    · split
      · next hlarge =>
          have hle : (10 : ℚ) ^ (400 : ℤ) ≤ c * 10 ^ e := by
            apply (Int.zpow_le_iff_le_log (b := 10) (by decide) hpos).mpr
            unfold outmostOrder at hlarge
            omega
          rw [rounded, Nat.min_eq_right (infinityBits_le_pattern hle), infinite]
      · exact hratio

theorem isFinite_ofDecimal (negative : Bool) (c : Nat) (e : Int) :
    (ofDecimal (.finite negative c e)).isFinite = true ↔
      |(Decimal.finite negative c e).toRat| < overflow := by
  rw [ofDecimal_eq, isFinite_rounded (Decimal.magnitude_nonneg c e), Decimal.abs_toRat]

theorem nearest_ofDecimal {c : Nat} {e : Int}
    (h : (ofDecimal (.finite negative c e)).isFinite = true) :
    Nearest (Decimal.finite negative c e).toRat (ofDecimal (.finite negative c e)) := by
  rw [isFinite_ofDecimal, Decimal.abs_toRat] at h
  rw [ofDecimal_eq]
  exact nearest_rounded (Decimal.magnitude_nonneg c e) h negative

end SlotText.Binary64
