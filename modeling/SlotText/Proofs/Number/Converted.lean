import SlotText.Proofs.Binary64.Magnitude
import SlotText.Proofs.Value.Writable

/-!
# Which numbers are converted

Every conversion writes every finite number, with two exceptions among the decimals. The ordinal
of a decimal is a numeral in base ten, which may be too long, and a decimal that is no whole number
takes the way over the nearest float to another base, which is infinite beyond the largest one.
Whole numbers that can be written and floats have no exceptions: a float has at most a little over
three hundred digits before its point, and its fraction ends in every even base.
-/
namespace SlotText

/-- The failures of a conversion for a decimal. -/
inductive Decimal.Unwritten (k : Conversion) (d : Decimal) : Failure → Prop
  | ordinal : k.isOrdinal = true → Nat.pow 10 Numeral.longest ≤ d.nearestInt.natAbs →
      Unwritten k d .numeralTooLong
  | radix {negative : Bool} {c : Nat} {e : Int} : k.isRadix = true → d = .finite negative c e →
      isWhole c e = false → (Binary64.ofDecimal d).isFinite = false →
      Unwritten k d .infiniteRatio

/-- Only finite decimals are converted at all. -/
theorem Decimal.Unwritten.isFinite {k : Conversion} {d : Decimal} {e : Failure}
    (h : d.Unwritten k e) : d.isFinite = true := by
  cases h with
  | ordinal _ hlong =>
      have hpos := (Numeral.pow_ten_le (Nat.zero_le Numeral.longest)).trans hlong
      have hne : d.nearestInt.natAbs ≠ 0 := Nat.pos_iff_ne_zero.mp hpos
      cases d with
      | finite negative c e => rfl
      | infinite negative => exact absurd rfl hne
      | nan negative signaling payload => exact absurd rfl hne
  | radix _ hd _ _ =>
      rw [hd]
      rfl

theorem Binary64.isNaN_of_isFinite {x : Binary64} (h : x.isFinite = true) : x.isNaN = false := by
  rw [isFinite, bne_iff_ne] at h
  rw [isNaN, beq_false_of_ne h, Bool.false_and]

namespace Radix

variable {base : Nat}

theorem exists_sign {d : Int} (h : 0 ≤ d) (hd : d < Numeral.signs) : ∃ c, sign d = .ok c :=
  ⟨_, if_pos ⟨h, hd⟩⟩

theorem ofNat_eq (hb : 2 ≤ base) (hs : base ≤ Numeral.signs) (n : Nat) :
    ofNat base n = .ok ((Numeral.digits base n).map Numeral.sign) := by
  have hsigns : ∀ d ∈ (Numeral.digits base n).reverse,
      (sign ∘ Int.ofNat) d = .ok (Numeral.sign d) := by
    intro d hd
    have hlt := Numeral.lt_of_mem_digits hb (List.mem_reverse.mp hd)
    exact sign_natCast (Nat.lt_of_lt_of_le hlt hs)
  rw [ofNat, if_neg (by omega), written, digits_natCast (by omega), ← List.map_reverse,
    List.mapM_map, Outcome.mapM_eq_ok hsigns, List.map_reverse]
  exact congrArg Except.ok (List.reverse_reverse _)

theorem exists_ofInt (hb : 2 ≤ base) (hs : base ≤ Numeral.signs) (n : Int) :
    ∃ s, ofInt base n = .ok s := by
  rw [ofInt, ofNat_eq hb hs]
  exact ⟨_, rfl⟩

/-- A remainder stays below the denominator, so the next digit is below the base. -/
theorem exists_fractionText (hb : 2 ≤ base) (hs : base ≤ Numeral.signs) {den : Nat} (fuel : Nat)
    {r : Int} (hr : 0 ≤ r) (hlt : r < den) : ∃ s, fractionText base den fuel r = .ok s := by
  induction fuel generalizing r with
  | zero => exact ⟨[], rfl⟩
  | succ fuel ih =>
      have hden : (0 : Int) < den := by omega
      have hbase : (0 : Int) < base := by omega
      have hdigit : base * r / den < base := by
        apply Int.ediv_lt_of_lt_mul hden
        exact Int.mul_lt_mul_of_pos_left hlt hbase
      have hnonneg : 0 ≤ base * r / den := by
        apply Int.ediv_nonneg _ (Int.le_of_lt hden)
        exact Int.mul_nonneg (Int.le_of_lt hbase) hr
      obtain ⟨c, hc⟩ := exists_sign hnonneg (by omega)
      obtain ⟨s, hrest⟩ := ih (Int.emod_nonneg (base * r) (by omega)) (Int.emod_lt_of_pos _ hden)
      rw [fractionText]
      split
      · exact ⟨[], rfl⟩
      · rw [hc, Outcome.ok_bind, hrest]
        exact ⟨_, rfl⟩

/-- Digits behind the point come to an end as soon as a power of the base clears the denominator,
and more fuel adds none. -/
theorem fractionText_of_dvd {den m fuel : Nat} {r : Int} (hr : 0 ≤ r) (hlt : r < den)
    (hd : (den : Int) ∣ r * (base : Int) ^ m) (hfuel : m ≤ fuel) :
    fractionText base den fuel r = fractionText base den m r := by
  induction m generalizing fuel r with
  | zero =>
      rw [pow_zero, mul_one] at hd
      have hzero : r = 0 := Int.eq_zero_of_dvd_of_nonneg_of_lt hr hlt hd
      subst hzero
      cases fuel with
      | zero => rfl
      | succ fuel => rfl
  | succ m ih =>
      obtain ⟨fuel, rfl⟩ : ∃ f, fuel = f + 1 := ⟨fuel - 1, by omega⟩
      have hden : (0 : Int) < den := by omega
      have hrest : (den : Int) ∣ base * r % den * (base : Int) ^ m := by
        have hpow : (den : Int) ∣ base * r * (base : Int) ^ m := by
          rw [mul_comm (base : Int) r, mul_assoc, ← pow_succ']
          exact hd
        rw [Int.emod_def, sub_mul, mul_assoc (den : Int)]
        exact Int.dvd_sub hpow (Int.dvd_mul_right _ _)
      rw [fractionText, fractionText, ih (Int.emod_nonneg _ (by omega))
        (Int.emod_lt_of_pos _ hden) hrest (Nat.le_of_succ_le_succ hfuel)]

/-- The digits of a float behind the point come to an end by themselves: more fuel adds none. -/
def FractionEnds (base : Nat) (x : Binary64) : Prop :=
  ∀ fuel, x.ratio.2 ≤ fuel →
    fractionText base x.ratio.2 fuel ((x.ratio.1 % x.ratio.2 : Nat) : Int) =
      fractionText base x.ratio.2 x.ratio.2 ((x.ratio.1 % x.ratio.2 : Nat) : Int)

theorem fractionEnds_of_even (hbase : 2 ∣ base) (x : Binary64) : FractionEnds base x := by
  intro fuel hfuel
  obtain ⟨k, hk⟩ : ∃ k, x.ratio.2 = 2 ^ k := ⟨_, rfl⟩
  have hpos : 0 < x.ratio.2 := Nat.pow_pos (by decide)
  have hlt := Int.ofNat_lt.mpr (Nat.mod_lt x.ratio.1 hpos)
  have hle : k ≤ x.ratio.2 := hk ▸ Nat.le_of_lt Nat.lt_two_pow_self
  have hclear : (x.ratio.2 : Int) ∣ ((x.ratio.1 % x.ratio.2 : Nat) : Int) * (base : Int) ^ k := by
    have hpow : x.ratio.2 ∣ base ^ k := hk ▸ pow_dvd_pow_of_dvd hbase k
    apply Dvd.dvd.mul_left
    exact_mod_cast hpow
  rw [fractionText_of_dvd (Int.natCast_nonneg _) hlt hclear (hle.trans hfuel),
    fractionText_of_dvd (Int.natCast_nonneg _) hlt hclear hle]

theorem exists_ofMagnitude (hb : 2 ≤ base) (hs : base ≤ Numeral.signs) (x : Binary64) :
    ∃ s, ofMagnitude base x = .ok s := by
  have hden : 0 < x.ratio.2 := Nat.pow_pos (by decide)
  have hlt := Int.ofNat_lt.mpr (Nat.mod_lt x.ratio.1 hden)
  obtain ⟨fraction, hfraction⟩ := exists_fractionText hb hs x.ratio.2 (Int.natCast_nonneg _) hlt
  simp only [ofMagnitude, hfraction, ofNat_eq hb hs, Outcome.ok_bind]
  exact ⟨_, rfl⟩

theorem exists_ofFloat (hb : 2 ≤ base) (hs : base ≤ Numeral.signs) {x : Binary64}
    (hx : x.isFinite = true) : ∃ s, ofFloat base x = .ok s := by
  have hnan := Binary64.isNaN_of_isFinite hx
  obtain ⟨s, hmagnitude⟩ := exists_ofMagnitude hb hs x
  simp only [ofFloat, hnan, hx, Bool.false_eq_true, Bool.not_true, if_false]
  split
  · exact exists_ofInt hb hs _
  · rw [hmagnitude]
    exact ⟨_, rfl⟩

/-- The way over the nearest float is the only one on which a finite decimal is lost. -/
theorem ofDecimal_eq_error_iff (hb : 2 ≤ base) (hs : base ≤ Numeral.signs) {negative : Bool}
    {c : Nat} {e : Int} {f : Failure} :
    ofDecimal base (.finite negative c e) = .error f ↔ Decimal.isWhole c e = false ∧
      (Binary64.ofDecimal (.finite negative c e)).isFinite = false ∧ f = .infiniteRatio := by
  cases hwhole : Decimal.isWhole c e with
  | true =>
      obtain ⟨s, hint⟩ := exists_ofInt hb hs
        (if negative then -(Decimal.wholePart c e : Int) else Decimal.wholePart c e)
      simp only [ofDecimal, hwhole, if_true, hint]
      simp
  | false =>
      obtain ⟨s, hmagnitude⟩ := exists_ofMagnitude hb hs (Binary64.ofDecimal (.finite negative c e))
      simp only [ofDecimal, hwhole, hmagnitude]
      cases (Binary64.ofDecimal (.finite negative c e)).isFinite with
      | true => simp [Outcome.ok_bind, Outcome.pure_eq]
      | false => simp [eq_comm]

end Radix

theorem Numeral.ordinal_eq_error_iff {n : Int} {upper : Bool} {e : Failure} :
    ordinal n upper = .error e ↔ Nat.pow 10 longest ≤ n.natAbs ∧ e = .numeralTooLong := by
  rcases Nat.lt_or_ge n.natAbs (Nat.pow 10 longest) with h | h
  · rw [ordinal, write_eq_ok h, Outcome.ok_bind, Outcome.pure_eq]
    apply iff_of_false (Outcome.ok_ne_error _ e)
    intro he
    exact absurd he.1 (Nat.not_le_of_gt h)
  · rw [ordinal, write_eq_error h, Outcome.error_bind]
    constructor
    · intro he
      cases he
      exact ⟨h, rfl⟩
    · intro he
      rw [he.2]

namespace Conversion

variable {k : Conversion}

theorem base_bounds {base : Nat} (h : k.base? = some base) :
    2 ≤ base ∧ base ≤ Numeral.signs ∧ 2 ∣ base := by
  cases k with
  | octal => cases h; decide
  | hexLower => cases h; decide
  | hexUpper => cases h; decide
  | binary => cases h; decide
  | _ => cases h

theorem base?_of_isOrdinal (h : k.isOrdinal = true) : k.base? = none ∧ k.isScientific = false := by
  cases k with
  | ordinalLower => exact ⟨rfl, rfl⟩
  | ordinalUpper => exact ⟨rfl, rfl⟩
  | _ => cases h

end Conversion

namespace Number

variable {n : Number} {k : Conversion} {fixed : Bool} {e : Failure}

theorem nearestInt_lt (hn : n.toValue.Writable) (hd : ∀ d, n ≠ .decimal d) :
    n.nearestInt.natAbs < Nat.pow 10 Numeral.longest := by
  cases n with
  | int n => exact hn
  | float x => exact Nat.lt_of_le_of_lt (Binary64.natAbs_nearestInt_le x) (Binary64.bound_lt x)
  | decimal d => exact absurd rfl (hd d)

theorem exists_naturalText (hn : n.toValue.Writable) : ∃ s, n.naturalText fixed = .ok s := by
  cases n with
  | int n => exact ⟨_, Numeral.write_eq_ok hn⟩
  | float x => exact ⟨_, rfl⟩
  | decimal d => exact ⟨_, rfl⟩

theorem inBase_eq_error_iff (hn : n.isFinite = true) {base : Nat} (hb : 2 ≤ base)
    (hs : base ≤ Numeral.signs) :
    n.inBase base = .error e ↔ ∃ negative c x, n = .decimal (.finite negative c x) ∧
      Decimal.isWhole c x = false ∧
      (Binary64.ofDecimal (.finite negative c x)).isFinite = false ∧ e = .infiniteRatio := by
  cases n with
  | int n =>
      obtain ⟨s, hint⟩ := Radix.exists_ofInt hb hs n
      simp [inBase, hint]
  | float x =>
      obtain ⟨s, hfloat⟩ := Radix.exists_ofFloat hb hs hn
      simp [inBase, hfloat]
  | decimal d =>
      cases d with
      | finite negative c x =>
          rw [inBase, Radix.ofDecimal_eq_error_iff hb hs]
          simp
      | infinite negative => cases hn
      | nan negative signaling payload => cases hn

/-- Only decimals that are no whole numbers and beyond every float cannot be written in a base. -/
theorem convert_radix_eq_error_iff (hfinite : n.isFinite = true) {base : Nat}
    (hk : k.base? = some base) :
    n.convert k fixed = .error e ↔ ∃ d, n = .decimal d ∧ d.Unwritten k e := by
  obtain ⟨hb, hs, -⟩ := Conversion.base_bounds hk
  have hradix : k.isRadix = true := by rw [Conversion.isRadix, hk, Option.isSome_some]
  have hconvert : n.convert k fixed = .error e ↔ n.inBase base = .error e := by
    simp only [convert, hk]
    exact Outcome.bind_eq_error_iff fun s => ⟨_, rfl⟩
  rw [hconvert, inBase_eq_error_iff hfinite hb hs]
  constructor
  · rintro ⟨negative, c, x, rfl, hwhole, hfloat, rfl⟩
    exact ⟨_, rfl, .radix hradix rfl hwhole hfloat⟩
  · rintro ⟨d, rfl, hd⟩
    cases hd with
    | ordinal hordinal _ =>
        have hnone := (Conversion.base?_of_isOrdinal hordinal).1
        rw [hk] at hnone
        cases hnone
    | radix _ hd hwhole hfloat =>
        subst hd
        exact ⟨_, _, _, rfl, hwhole, hfloat, rfl⟩

/-- Only decimals with too long a numeral have no ordinal. -/
theorem convert_ordinal_eq_error_iff (hn : n.toValue.Writable) (hk : k.isOrdinal = true) :
    n.convert k fixed = .error e ↔ ∃ d, n = .decimal d ∧ d.Unwritten k e := by
  obtain ⟨hbase, hscientific⟩ := Conversion.base?_of_isOrdinal hk
  have hconvert : n.convert k fixed = Numeral.ordinal n.nearestInt k.isUpper := by
    simp only [convert, hbase, hscientific, hk, if_true, Bool.false_eq_true, if_false]
  rw [hconvert, Numeral.ordinal_eq_error_iff]
  constructor
  · rintro ⟨hlong, rfl⟩
    by_cases hdecimal : ∃ d, n = .decimal d
    · obtain ⟨d, rfl⟩ := hdecimal
      exact ⟨d, rfl, .ordinal hk hlong⟩
    · have hlt := nearestInt_lt hn fun d hd => hdecimal ⟨d, hd⟩
      exact absurd hlong (Nat.not_le_of_gt hlt)
  · rintro ⟨d, rfl, hd⟩
    cases hd with
    | ordinal _ hlong => exact ⟨hlong, rfl⟩
    | radix hradix _ _ _ =>
        rw [Conversion.isRadix, hbase] at hradix
        cases hradix

/-- A finite number is converted, unless it is a decimal that the conversion cannot write. -/
theorem convert_eq_error_iff (hfinite : n.isFinite = true) (hn : n.toValue.Writable) :
    n.convert k fixed = .error e ↔ ∃ d, n = .decimal d ∧ d.Unwritten k e := by
  cases hbase : k.base? with
  | some base => exact convert_radix_eq_error_iff hfinite hbase
  | none =>
      cases hordinal : k.isOrdinal with
      | true => exact convert_ordinal_eq_error_iff hn hordinal
      | false =>
          obtain ⟨s, hs⟩ : ∃ s, n.convert k fixed = .ok s := by
            simp only [convert, hbase, hordinal, Bool.false_eq_true, if_false]
            split
            · exact ⟨_, rfl⟩
            · exact exists_naturalText hn
          rw [hs]
          apply iff_of_false (Outcome.ok_ne_error s e)
          rintro ⟨d, -, hd⟩
          cases hd with
          | ordinal hk _ => exact absurd (hk.symm.trans hordinal) (by decide)
          | radix hk _ _ _ =>
              rw [Conversion.isRadix, hbase] at hk
              cases hk

end Number

end SlotText
