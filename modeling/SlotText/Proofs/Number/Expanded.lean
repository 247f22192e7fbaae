import SlotText.Proofs.Binary64.Rounding
import SlotText.Proofs.Number.Converted

/-!
# Numbers in an even base

The digits of a fraction are found from its remainders. What a remainder stands for is the next
digit and what the next remainder stands for, a place further on. A remainder of a float is a ratio
to a power of two, and every digit of an even base takes at least one factor of it. So the digits
come to an end, they stand for the float exactly, and the last one is not zero.

A decimal is written as the whole number that it is, or as the nearest float if it is none. Either
way numbers are written as canonical expansions of what they stand for, and equal numbers are
written alike whether they are whole numbers, floats or decimals.
-/
namespace SlotText

/-- A text is a sign and the canonical expansion of a magnitude. -/
def Text.Expands (base : Nat) (negative : Bool) (r : ℚ) (s : Text) : Prop :=
  ∃ x : Expansion, x.Canonical base ∧ x.value base = r ∧
    s = Decimal.signText negative ++ x.text false

theorem Text.Expands.eq {base : Nat} {negative : Bool} {r : ℚ} {s s' : Text} (hb : 2 ≤ base)
    (h : s.Expands base negative r) (h' : s'.Expands base negative r) : s = s' := by
  obtain ⟨x, hx, hvalue, rfl⟩ := h
  obtain ⟨x', hx', hvalue', rfl⟩ := h'
  rw [hx.eq_of_value_eq hb hx' (hvalue.trans hvalue'.symm)]

/-- The number that a finite number stands for. -/
def Number.toRat : Number → ℚ
  | int n => n
  | float x => x.toRat
  | decimal d => d.toRat

namespace Radix

variable {base : Nat}

/-- Digits behind the point that stand for a remainder. The last one is not zero. -/
structure Represents (base den r : Nat) (ds : List Nat) : Prop where
  lt : ∀ d ∈ ds, d < base
  last : ds.getLast? ≠ some 0
  value : Numeral.value base ds * den = r * base ^ ds.length

variable {den r : Nat} {ds : List Nat}

theorem digit_lt (hb : 2 ≤ base) (hlt : r < den) : base * r / den < base := by
  rw [Nat.div_lt_iff_lt_mul (by omega)]
  exact Nat.mul_lt_mul_of_pos_left hlt (by omega)

theorem Represents.nil (base den : Nat) : Represents base den 0 [] :=
  ⟨by simp, by simp, by simp [Numeral.value]⟩

/-- The digits of the next remainder come after the next digit. -/
theorem Represents.cons (hb : 2 ≤ base) (hr : r ≠ 0) (hlt : r < den)
    (h : Represents base den (base * r % den) ds) :
    Represents base den r (base * r / den :: ds) := by
  have hsplit := Nat.div_add_mod (base * r) den
  refine ⟨List.forall_mem_cons.mpr ⟨digit_lt hb hlt, h.lt⟩, ?_, ?_⟩
  · cases ds with
    | nil =>
        -- Nothing remains, so the digit is all of the remainder, which is not zero.
        rw [List.getLast?_singleton, ne_eq, Option.some.injEq]
        intro hzero
        have hrest := h.value
        simp only [Numeral.value, List.foldl_nil, List.length_nil, pow_zero] at hrest
        rw [hzero] at hsplit
        have hproduct : base * r ≠ 0 := Nat.mul_ne_zero (by omega) hr
        omega
    | cons d ds =>
        rw [List.getLast?_cons_cons]
        exact h.last
  · calc Numeral.value base (base * r / den :: ds) * den
        = base * r / den * base ^ ds.length * den + Numeral.value base ds * den := by
          rw [Numeral.value_cons, Nat.add_mul]
      _ = (den * (base * r / den) + base * r % den) * base ^ ds.length := by
          rw [h.value]
          ring
      _ = r * base ^ (ds.length + 1) := by
          rw [hsplit]
          ring

theorem dvd_of_dvd_mul_pow {fuel : Nat} (h : den ∣ r * base ^ (fuel + 1)) :
    den ∣ base * r % den * base ^ fuel := by
  rw [pow_succ', ← Nat.mul_assoc, Nat.mul_comm r, ← Nat.div_add_mod (base * r) den, Nat.add_mul,
    Nat.mul_assoc] at h
  exact (Nat.dvd_add_right (Nat.dvd_mul_right _ _)).mp h

/-- As soon as a power of the base clears the denominator, the digits stand for the remainder. -/
theorem exists_fractionDigits (hb : 2 ≤ base) (hs : base ≤ Numeral.signs) {fuel : Nat}
    (hlt : r < den) (hd : den ∣ r * base ^ fuel) :
    ∃ ds : List Nat, fractionText base den fuel r = .ok (ds.map Numeral.sign) ∧
      Represents base den r ds := by
  -- One power of the base goes into the next digit and the others clear what remains.
  induction fuel generalizing r with
  | zero =>
      rw [pow_zero, Nat.mul_one] at hd
      obtain rfl := Nat.eq_zero_of_dvd_of_lt hd hlt
      exact ⟨[], rfl, .nil base den⟩
  | succ fuel ih =>
      by_cases hr : r = 0
      · subst hr
        exact ⟨[], rfl, .nil base den⟩
      · obtain ⟨ds, htext, hds⟩ := ih (Nat.mod_lt _ (by omega)) (dvd_of_dvd_mul_pow hd)
        refine ⟨base * r / den :: ds, ?_, hds.cons hb hr hlt⟩
        have hsign := sign_natCast ((digit_lt hb hlt).trans_le hs)
        rw [fractionText, if_neg (by omega)]
        push_cast at hsign htext
        rw [hsign, htext]
        rfl

/-- The denominator of a float is a power of two, which as many digits of an even base clear. -/
theorem exists_expansion (hb : 2 ≤ base) (hs : base ≤ Numeral.signs) (heven : 2 ∣ base)
    (x : Binary64) : ∃ y : Expansion, ofMagnitude base x = .ok (y.text false) ∧
      y.Canonical base ∧ y.value base = x.magnitude := by
  have hpos : 0 < x.ratio.2 := Nat.pow_pos (by decide)
  have hlt := Nat.mod_lt x.ratio.1 hpos
  have hclear : x.ratio.2 ∣ x.ratio.1 % x.ratio.2 * base ^ (-x.exponent).toNat :=
    (pow_dvd_pow_of_dvd heven _).mul_left _
  have hfuel : (-x.exponent).toNat ≤ x.ratio.2 := Nat.le_of_lt Nat.lt_two_pow_self
  have hends := fractionText_of_dvd (Int.natCast_nonneg _) (Int.ofNat_lt.mpr hlt)
    (by exact_mod_cast hclear) hfuel
  obtain ⟨ds, htext, hds⟩ := exists_fractionDigits hb hs hlt hclear
  have hwhole := Expansion.canonical_digits hb (x.ratio.1 / x.ratio.2)
  refine ⟨⟨Numeral.digits base (x.ratio.1 / x.ratio.2), ds⟩, ?_,
    ⟨⟨hwhole.whole_ne_nil, hwhole.whole_lt, hds.lt⟩, hwhole.leading, hds.last⟩, ?_⟩
  · simp only [ofMagnitude, hends, htext, ofNat_eq hb hs, Outcome.ok_bind]
    cases ds with
    | nil => rw [Expansion.text_of_fraction_eq_nil]; rfl
    | cons d ds => rfl
  · have hbase : (base : ℚ) ^ ds.length ≠ 0 := pow_ne_zero _ (Nat.cast_ne_zero.mpr (by omega))
    have hden : (x.ratio.2 : ℚ) ≠ 0 := by exact_mod_cast hpos.ne'
    have hfraction : (Numeral.value base ds : ℚ) * x.ratio.2 =
        (x.ratio.1 % x.ratio.2 : ℕ) * base ^ ds.length := by exact_mod_cast hds.value
    have hsplit : (x.ratio.1 : ℚ) = x.ratio.2 * (x.ratio.1 / x.ratio.2 : ℕ) +
        (x.ratio.1 % x.ratio.2 : ℕ) := by exact_mod_cast (Nat.div_add_mod _ _).symm
    rw [← Binary64.ratio_eq, Expansion.value, Numeral.value_append, Numeral.value_digits base hb,
      div_eq_div_iff hbase hden]
    push_cast
    rw [add_mul, hfraction, hsplit]
    ring

theorem exists_text (hb : 2 ≤ base) (hs : base ≤ Numeral.signs) (heven : 2 ∣ base) (x : Binary64) :
    ∃ s, ofMagnitude base x = .ok s ∧
      ∀ negative, (Decimal.signText negative ++ s).Expands base negative x.magnitude := by
  obtain ⟨y, htext, hcanonical, hvalue⟩ := exists_expansion hb hs heven x
  exact ⟨_, htext, fun negative => ⟨y, hcanonical, hvalue, rfl⟩⟩

theorem ofInt_eq (hb : 2 ≤ base) (hs : base ≤ Numeral.signs) (m : Int) : ofInt base m =
    .ok (Decimal.signText (m < 0) ++ Expansion.text false ⟨Numeral.digits base m.natAbs, []⟩) := by
  rw [ofInt, ofNat_eq hb hs, Expansion.text_of_fraction_eq_nil]
  rfl

theorem exists_expands_ofInt (hb : 2 ≤ base) (hs : base ≤ Numeral.signs) (m : Int) :
    ∃ s, ofInt base m = .ok s ∧ s.Expands base (m < 0) |(m : ℚ)| := by
  refine ⟨_, ofInt_eq hb hs m, _, Expansion.canonical_digits hb _, ?_, rfl⟩
  rw [Expansion.value_digits hb, Nat.cast_natAbs, Int.cast_abs]

variable {x : Binary64} {negative : Bool} {c : Nat} {e m : Int}

theorem ofFloat_eq_ofInt (hx : x.isFinite = true) (h : x.toRat = m) :
    ofFloat base x = ofInt base m := by
  obtain ⟨n, hn⟩ := exists_natCast_of_withSign_eq x.magnitude_nonneg h
  have hwhole := (Binary64.isWhole_iff hx).mpr ⟨n, hn⟩
  have hquotient : x.ratio.1 / x.ratio.2 = n := by
    rw [← Nat.floor_div_eq_div (K := ℚ), Binary64.ratio_eq, hn, Nat.floor_natCast]
  have hm : (if x.isNegative then -(n : Int) else n) = m := by
    rw [Binary64.toRat, hn, withSign_natCast] at h
    exact_mod_cast h
  simp only [ofFloat, Binary64.isNaN_of_isFinite hx, hx, hwhole, hquotient, Bool.not_true,
    Bool.false_eq_true, if_false, if_true, hm]

theorem ofDecimal_eq_ofInt (h : (Decimal.finite negative c e).toRat = m) :
    ofDecimal base (.finite negative c e) = ofInt base m := by
  obtain ⟨n, hn⟩ := exists_natCast_of_withSign_eq (Decimal.magnitude_nonneg c e) h
  have hwhole := Decimal.isWhole_iff.mpr ⟨n, hn⟩
  have hpart : Decimal.wholePart c e = n := by
    have heq := (Decimal.wholePart_eq hwhole).trans hn
    exact_mod_cast heq
  have hm : (if negative then -(n : Int) else n) = m := by
    rw [Decimal.toRat, hn, withSign_natCast] at h
    exact_mod_cast h
  simp only [ofDecimal, hwhole, if_true, hpart, hm]

/-- A finite float that is not whole is written digit by digit. -/
theorem ofFloat_of_not_whole (hx : x.isFinite = true) (h : ∀ m : Int, x.toRat ≠ m) :
    ofFloat base x = (ofMagnitude base x).map (Decimal.signText (x.toRat < 0) ++ ·) := by
  have hwhole : x.isWhole = false := by
    rw [Bool.eq_false_iff, ne_eq, Binary64.isWhole_iff hx, not_exists]
    exact ne_natCast_of_withSign h
  have hpos : 0 < x.magnitude := pos_of_withSign x.magnitude_nonneg h
  have hsign : decide (x.toRat < 0) = x.isNegative := decide_withSign_lt_zero hpos _
  simp only [ofFloat, Binary64.isNaN_of_isFinite hx, hx, hwhole, Bool.not_true,
    Bool.false_eq_true, if_false, hsign]
  rfl

/-- A decimal that is not whole is written as the nearest float. -/
theorem ofDecimal_of_not_whole (h : ∀ m : Int, (Decimal.finite negative c e).toRat ≠ m) :
    ofDecimal base (.finite negative c e) =
      if (Binary64.ofDecimal (.finite negative c e)).isFinite then
        (ofMagnitude base (Binary64.ofDecimal (.finite negative c e))).map
          (Decimal.signText ((Decimal.finite negative c e).toRat < 0) ++ ·)
      else .error .infiniteRatio := by
  have hwhole : Decimal.isWhole c e = false := by
    rw [Bool.eq_false_iff, ne_eq, Decimal.isWhole_iff, not_exists]
    exact ne_natCast_of_withSign h
  have hpos : (0 : ℚ) < c * 10 ^ e := pos_of_withSign (Decimal.magnitude_nonneg c e) h
  have hsign : decide ((Decimal.finite negative c e).toRat < 0) = negative :=
    decide_withSign_lt_zero hpos negative
  simp only [ofDecimal, hwhole, Bool.false_eq_true, if_false, hsign]
  cases (Binary64.ofDecimal (.finite negative c e)).isFinite with
  | true => rfl
  | false => rfl

/-- Every finite float is written exactly. -/
theorem exists_expands_ofFloat (hb : 2 ≤ base) (hs : base ≤ Numeral.signs) (heven : 2 ∣ base)
    (hx : x.isFinite = true) :
    ∃ s, ofFloat base x = .ok s ∧ s.Expands base (x.toRat < 0) |x.toRat| := by
  by_cases hwhole : ∃ m : Int, x.toRat = m
  · obtain ⟨m, hm⟩ := hwhole
    obtain ⟨s, htext, hexpands⟩ := exists_expands_ofInt hb hs m
    have hsign : decide (x.toRat < 0) = decide (m < 0) := by
      rw [hm]
      exact decide_eq_decide.mpr Int.cast_lt_zero
    rw [ofFloat_eq_ofInt hx hm, hsign, hm]
    exact ⟨s, htext, hexpands⟩
  · obtain ⟨s, htext, hexpands⟩ := exists_text hb hs heven x
    rw [ofFloat_of_not_whole hx (not_exists.mp hwhole), htext, x.abs_toRat]
    exact ⟨_, rfl, hexpands _⟩

theorem exists_expands_ofDecimal (hb : 2 ≤ base) (hs : base ≤ Numeral.signs) (heven : 2 ∣ base)
    (h : ∀ m : Int, (Decimal.finite negative c e).toRat ≠ m)
    (hx : (Binary64.ofDecimal (.finite negative c e)).isFinite = true) :
    ∃ s, ofDecimal base (.finite negative c e) = .ok s ∧
      s.Expands base ((Decimal.finite negative c e).toRat < 0)
        |(Binary64.ofDecimal (.finite negative c e)).toRat| := by
  obtain ⟨s, htext, hexpands⟩ :=
    exists_text hb hs heven (Binary64.ofDecimal (.finite negative c e))
  rw [ofDecimal_of_not_whole h, if_pos hx, htext, Binary64.abs_toRat]
  exact ⟨_, rfl, hexpands _⟩

/-- The text of the float nearest to a number. -/
def ofNearest (base : Nat) (r : ℚ) : Outcome Text :=
  if (Binary64.rounded (r < 0) |r|).isFinite then
    (ofMagnitude base (Binary64.rounded (r < 0) |r|)).map (Decimal.signText (r < 0) ++ ·)
  else .error .infiniteRatio

theorem ofFloat_eq_ofNearest (hb : 2 ≤ base) (hs : base ≤ Numeral.signs) (heven : 2 ∣ base)
    (hx : x.isFinite = true) (h : ∀ m : Int, x.toRat ≠ m) :
    ofFloat base x = ofNearest base x.toRat := by
  have habs := x.abs_toRat
  have hfinite : (Binary64.rounded (x.toRat < 0) x.magnitude).isFinite = true :=
    (Binary64.isFinite_rounded x.magnitude_nonneg).mpr (Binary64.magnitude_lt_overflow hx)
  obtain ⟨s, hs₁, hexpands₁⟩ := exists_text hb hs heven x
  obtain ⟨s', hs₂, hexpands₂⟩ :=
    exists_text hb hs heven (Binary64.rounded (x.toRat < 0) x.magnitude)
  rw [Binary64.magnitude_rounded hx] at hexpands₂
  have heq : s = s' := (hexpands₁ false).eq hb (hexpands₂ false)
  rw [ofFloat_of_not_whole hx h, ofNearest, habs, if_pos hfinite, hs₁, hs₂, heq]

theorem ofDecimal_eq_ofNearest (h : ∀ m : Int, (Decimal.finite negative c e).toRat ≠ m) :
    ofDecimal base (.finite negative c e) =
      ofNearest base (Decimal.finite negative c e).toRat := by
  have hnonneg := Decimal.magnitude_nonneg c e
  have habs := Decimal.abs_toRat negative c e
  have hsign : decide ((Decimal.finite negative c e).toRat < 0) = negative :=
    decide_withSign_lt_zero (pos_of_withSign hnonneg h) negative
  rw [ofDecimal_of_not_whole h, Binary64.ofDecimal_eq, ofNearest, habs, hsign]

end Radix

namespace Number

variable {base : Nat} {n : Number} {m : Int}

theorem inBase_eq_ofInt (hn : n.isFinite = true) (h : n.toRat = m) :
    n.inBase base = Radix.ofInt base m := by
  cases n with
  | int k =>
      cases Int.cast_injective (α := ℚ) h
      rfl
  | float x => exact Radix.ofFloat_eq_ofInt hn h
  | decimal d =>
      obtain ⟨negative, c, e, rfl⟩ := Decimal.exists_finite hn
      exact Radix.ofDecimal_eq_ofInt h

theorem inBase_eq_ofNearest (hb : 2 ≤ base) (hs : base ≤ Numeral.signs) (heven : 2 ∣ base)
    (hn : n.isFinite = true) (h : ∀ m : Int, n.toRat ≠ m) :
    n.inBase base = Radix.ofNearest base n.toRat := by
  cases n with
  | int k => exact absurd rfl (h k)
  | float x => exact Radix.ofFloat_eq_ofNearest hb hs heven hn h
  | decimal d =>
      obtain ⟨negative, c, e, rfl⟩ := Decimal.exists_finite hn
      exact Radix.ofDecimal_eq_ofNearest h

/-- The text of a finite number depends on nothing but the number. -/
theorem inBase_congr (hb : 2 ≤ base) (hs : base ≤ Numeral.signs) (heven : 2 ∣ base) {n' : Number}
    (hn : n.isFinite = true) (hn' : n'.isFinite = true) (h : n.toRat = n'.toRat) :
    n.inBase base = n'.inBase base := by
  by_cases hwhole : ∃ m : Int, n.toRat = m
  · obtain ⟨m, hm⟩ := hwhole
    rw [inBase_eq_ofInt hn hm, inBase_eq_ofInt hn' (h.symm.trans hm)]
  · have hnot := not_exists.mp hwhole
    rw [inBase_eq_ofNearest hb hs heven hn hnot, h]
    rw [h] at hnot
    rw [inBase_eq_ofNearest hb hs heven hn' hnot]

/-- Whatever a finite number is written as in an even base is a sign and a canonical expansion. -/
theorem expands_of_inBase (hb : 2 ≤ base) (hs : base ≤ Numeral.signs) (heven : 2 ∣ base)
    {s : Text} (hn : n.isFinite = true) (h : n.inBase base = .ok s) :
    ∃ negative r, s.Expands base negative r := by
  by_cases hwhole : ∃ m : Int, n.toRat = m
  · obtain ⟨m, hm⟩ := hwhole
    obtain ⟨s', hs', hexpands⟩ := Radix.exists_expands_ofInt hb hs m
    rw [inBase_eq_ofInt hn hm, hs'] at h
    cases h
    exact ⟨_, _, hexpands⟩
  · rw [inBase_eq_ofNearest hb hs heven hn (not_exists.mp hwhole), Radix.ofNearest] at h
    split at h
    · obtain ⟨s', hs', hexpands⟩ :=
        Radix.exists_text hb hs heven (Binary64.rounded (n.toRat < 0) |n.toRat|)
      rw [hs'] at h
      cases h
      exact ⟨_, _, hexpands _⟩
    · cases h

/-- In every even base a finite float is written exactly and in a finite number of digits. A finite
decimal is written as the whole number that it is, or else as the nearest float if there is one. And
finite numbers that are equal are written alike, of whatever type they are. -/
theorem inBase_exact (hb : 2 ≤ base) (hs : base ≤ Numeral.signs) (heven : 2 ∣ base) :
    (∀ x : Binary64, x.isFinite = true → Radix.FractionEnds base x ∧
      ∃ s, (float x).inBase base = .ok s ∧ s.Expands base (x.toRat < 0) |x.toRat|) ∧
    (∀ d : Decimal, d.isFinite = true →
      (∀ m : Int, d.toRat = m → ∃ s, (decimal d).inBase base = .ok s ∧
        s.Expands base (m < 0) |(m : ℚ)|) ∧
      ((∀ m : Int, d.toRat ≠ m) →
        ((Binary64.ofDecimal d).isFinite = true ↔ |d.toRat| < Binary64.overflow) ∧
        ((Binary64.ofDecimal d).isFinite = true → Binary64.Nearest d.toRat (.ofDecimal d) ∧
          ∃ s, (decimal d).inBase base = .ok s ∧
            s.Expands base (d.toRat < 0) |(Binary64.ofDecimal d).toRat|))) ∧
    ∀ n n' : Number, n.isFinite = true → n'.isFinite = true → n.toRat = n'.toRat →
      n.inBase base = n'.inBase base := by
  refine ⟨fun x hx => ⟨Radix.fractionEnds_of_even heven x,
    Radix.exists_expands_ofFloat hb hs heven hx⟩, fun d hd => ?_,
    fun n n' hn hn' => inBase_congr hb hs heven hn hn'⟩
  obtain ⟨negative, c, e, rfl⟩ := Decimal.exists_finite hd
  refine ⟨fun m hm => ?_, fun hnot => ⟨Binary64.isFinite_ofDecimal negative c e, fun hfinite =>
    ⟨?_, Radix.exists_expands_ofDecimal hb hs heven hnot hfinite⟩⟩⟩
  · obtain ⟨s, hs', hexpands⟩ := Radix.exists_expands_ofInt hb hs m
    exact ⟨s, (Radix.ofDecimal_eq_ofInt hm).trans hs', hexpands⟩
  · exact Binary64.nearest_ofDecimal hfinite

/-- A float and a decimal with a zero at its end, both `-3.25`. -/
theorem inBase_exact_binary :
    let x : Binary64 := ⟨0xC00A000000000000⟩
    let d : Decimal := .finite true 3250 (-3)
    x.toRat = -13 / 4 ∧ d.toRat = -13 / 4 ∧ (float x).inBase 2 = (decimal d).inBase 2 ∧
      (decimal d).inBase 2 = .ok "-11.01".toList := by
  intro x d
  have hx : x.toRat = -13 / 4 := by
    have hsign : x.isNegative = true := by decide
    have hsignificand : x.significand = 7318349394477056 := by decide
    have hexponent : x.exponent = -51 := by decide
    rw [Binary64.toRat, Binary64.magnitude, hsign, hsignificand, hexponent]
    norm_num [withSign]
  have hd : d.toRat = -13 / 4 := by norm_num [d, Decimal.toRat, withSign]
  have hexact := @inBase_exact 2 (by decide) (by decide) (by decide)
  have hequal := hexact.2.2 (.float x) (.decimal d) (by decide) (by decide) (hx.trans hd.symm)
  exact ⟨hx, hd, hequal, by decide +kernel⟩

end Number

end SlotText
