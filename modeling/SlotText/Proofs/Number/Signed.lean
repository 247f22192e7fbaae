import SlotText.Number.Shape
import SlotText.Proofs.Number.Converted
import SlotText.Proofs.Specifier.Grammar
import Mathlib.Data.List.TakeWhile

/-!
# The sign and the first digit of a number

Every conversion writes a finite number in the same shape: a minus sign if the number is negative,
and then a text that begins with a digit of the base that the conversion writes. Adding digits
behind the point or cutting them off keeps the shape. So the sign of a number can be told from its
digits, and whatever is put between the two stands in front of a digit.
-/
namespace SlotText

/-- A digit of a base, as a letter of either case where it is one. -/
def Numeral.Digit (base : Nat) (c : Char) : Prop :=
  ∃ d < base, c = sign d ∨ c = (sign d).toUpper

/-- The base of the digits that a conversion writes. -/
def Conversion.base (k : Conversion) : Nat := k.base?.getD 10

theorem Conversion.base_le (k : Conversion) : k.base ≤ Numeral.signs := by
  cases k <;> decide

theorem Conversion.base_of_isScientific {k : Conversion} (h : k.isScientific = true) :
    k.base = 10 := by
  cases k with
  | scientificLower => rfl
  | scientificUpper => rfl
  | _ => cases h

/-- A minus sign or none, and then a text that begins with a character of a class. -/
def Text.Signed (p : Char → Prop) (s : Text) : Prop :=
  ∃ negative digits, s = Decimal.signText negative ++ digits ∧ digits.Begins p

variable {p : Char → Prop} {s : Text}

theorem Text.Begins.append (h : s.Begins p) (t : Text) : Text.Begins p (s ++ t) :=
  begins_append_iff.mpr (.inl h)

theorem Text.Begins.signed (h : s.Begins p) (negative : Bool) :
    Text.Signed p (Decimal.signText negative ++ s) :=
  ⟨negative, s, rfl, h⟩

namespace Numeral

variable {base n : Nat} {c : Char}

theorem digit_zero (hb : 0 < base) : Digit base '0' := ⟨0, hb, .inl rfl⟩

theorem Digit.toUpper (h : Digit base c) (hb : base ≤ signs) : Digit base c.toUpper := by
  have hall : ∀ d < signs, (sign d).toUpper.toUpper = (sign d).toUpper := by decide
  obtain ⟨d, hd, rfl | rfl⟩ := h
  · exact ⟨d, hd, .inr rfl⟩
  · exact ⟨d, hd, .inr (hall d (hd.trans_le hb))⟩

/-- No digit is taken for a sign or for a point. -/
theorem Digit.ne (h : Digit base c) (hb : base ≤ signs) : c ≠ '-' ∧ c ≠ '.' := by
  have hall : ∀ d < signs, (sign d ≠ '-' ∧ sign d ≠ '.') ∧
      (sign d).toUpper ≠ '-' ∧ (sign d).toUpper ≠ '.' := by decide
  obtain ⟨d, hd, rfl | rfl⟩ := h
  · exact (hall d (hd.trans_le hb)).1
  · exact (hall d (hd.trans_le hb)).2

/-- No decimal digit is taken for the marker of a power of ten. -/
theorem Digit.ne_marker (h : Digit 10 c) : c ≠ 'e' ∧ c ≠ 'E' := by
  have hall : ∀ d < 10, (sign d ≠ 'e' ∧ sign d ≠ 'E') ∧
      (sign d).toUpper ≠ 'e' ∧ (sign d).toUpper ≠ 'E' := by decide
  obtain ⟨d, hd, rfl | rfl⟩ := h
  · exact (hall d hd).1
  · exact (hall d hd).2

theorem begins_map_sign {ds : List Nat} (hne : ds ≠ []) (hds : ∀ d ∈ ds, d < base) :
    Text.Begins (Digit base) (ds.map sign) := by
  cases ds with
  | nil => exact absurd rfl hne
  | cons d ds => exact ⟨d, hds d List.mem_cons_self, .inl rfl⟩

theorem begins_digits (hb : 2 ≤ base) (n : Nat) :
    Text.Begins (Digit base) ((digits base n).map sign) :=
  begins_map_sign (digits_ne_nil base hb n) fun _ => lt_of_mem_digits hb

theorem begins_ofNat (n : Nat) : (ofNat n).Begins (Digit 10) := begins_digits (by decide) n

theorem signed_of_write {n : Int} (h : write n = .ok s) : s.Signed (Digit 10) := by
  unfold write at h
  dsimp only at h
  split at h
  · cases h
  · cases h
    cases n with
    | ofNat n => exact (begins_ofNat n).signed false
    | negSucc n => exact (begins_ofNat (n + 1)).signed true

theorem signed_of_ordinal {n : Int} {upper : Bool} (h : ordinal n upper = .ok s) :
    s.Signed (Digit 10) := by
  obtain ⟨t, ht, h⟩ := Outcome.bind_eq_ok.mp h
  obtain ⟨negative, digits, rfl, hdigits⟩ := signed_of_write ht
  cases h
  rw [List.append_assoc]
  exact (hdigits.append _).signed negative

/-- A number but zero has a digit other than zero in front, which is not trimmed. -/
theorem trimZeros_digits_ne_nil (hn : n ≠ 0) : trimZeros (digits 10 n) ≠ [] := by
  have hhead : (digits 10 n).head? ≠ some 0 := head?_digits_ne_zero (by decide) hn
  obtain ⟨d, ds, hds⟩ := List.exists_cons_of_ne_nil (digits_ne_nil 10 (by decide) n)
  rw [hds, List.head?_cons, ne_eq, Option.some.injEq] at hhead
  intro hnil
  have hzeros := List.dropWhile_eq_nil_iff.mp (List.reverse_eq_nil_iff.mp hnil)
  have hzero := hzeros d (by simp [hds])
  exact hhead (beq_iff_eq.mp hzero)

theorem lt_of_mem_trimZeros {ds : List Nat} (hds : ∀ d ∈ ds, d < base) :
    ∀ d ∈ trimZeros ds, d < base := by
  intro d hd
  have hmem := (List.dropWhile_suffix _).mem (List.mem_reverse.mp hd)
  exact hds d (List.mem_reverse.mp hmem)

end Numeral

open Numeral (Digit)

namespace Decimal

variable {ds : Text}

theorem begins_placePoint (h : ds.Begins p) (hzero : p '0') (place : Int) :
    (placePoint ds place).Begins p := by
  unfold placePoint
  split
  · exact hzero
  · next hplace =>
      split
      · exact h.append _
      · cases ds with
        | nil => exact h.elim
        | cons d ds =>
            obtain ⟨n, hn⟩ : ∃ n, place.toNat = n + 1 := ⟨place.toNat - 1, by omega⟩
            rw [hn]
            exact h

theorem begins_placeExponent (h : ds.Begins p) (hzero : p '0') (marker : Char) (e : Int) :
    (placeExponent marker ds e).Begins p :=
  (begins_placePoint h hzero 1).append _

theorem signed_text {d : Decimal} (h : d.isFinite = true) : d.text.Signed (Digit 10) := by
  cases d with
  | finite negative c e =>
      refine Text.Begins.signed ?_ negative
      have hzero : Digit 10 '0' := Numeral.digit_zero (by decide)
      split
      · exact begins_placePoint (Numeral.begins_ofNat c) hzero _
      · exact begins_placeExponent (Numeral.begins_ofNat c) hzero _ _
  | infinite negative => cases h
  | nan negative signaling payload => cases h

theorem signed_fixedText {d : Decimal} (h : d.isFinite = true) :
    d.fixedText.Signed (Digit 10) := by
  cases d with
  | finite negative c e =>
      refine Text.Begins.signed ?_ negative
      have hzero : Digit 10 '0' := Numeral.digit_zero (by decide)
      split
      · exact hzero
      · exact begins_placePoint (Numeral.begins_ofNat c) hzero _
  | infinite negative => cases h
  | nan negative signaling payload => cases h

theorem signed_scientificText {d : Decimal} (h : d.isFinite = true) (upper : Bool) :
    (d.scientificText upper).Signed (Digit 10) := by
  have hzero : Digit 10 '0' := Numeral.digit_zero (by decide)
  cases d with
  | finite negative c e =>
      refine Text.Begins.signed (begins_placeExponent ?_ hzero _ _) negative
      split
      · exact hzero
      · next hc =>
          exact Numeral.begins_map_sign (Numeral.trimZeros_digits_ne_nil hc)
            (Numeral.lt_of_mem_trimZeros fun _ => Numeral.lt_of_mem_digits (by decide))
  | infinite negative => cases h
  | nan negative signaling payload => cases h

end Decimal

namespace Binary64

variable {x : Binary64}

theorem isFinite_toDecimal (h : x.isFinite = true) : x.toDecimal.isFinite = true := by
  simp only [toDecimal, isNaN_of_isFinite h, h, Bool.not_true, Bool.false_eq_true, if_false]
  split
  · rfl
  · rfl

theorem signed_written (h : x.isFinite = true) (marked : Bool) :
    (x.written marked).Signed (Digit 10) := by
  have hzero : Digit 10 '0' := Numeral.digit_zero (by decide)
  simp only [written, isNaN_of_isFinite h, h, Bool.not_true, Bool.false_eq_true, if_false]
  refine Text.Begins.signed ?_ _
  have hdigits := Numeral.begins_ofNat x.shortest.1
  split
  · exact (Decimal.begins_placePoint hdigits hzero _).append _
  · exact (Decimal.begins_placePoint hdigits hzero _).append _

end Binary64

namespace Radix

variable {base : Nat}

theorem begins_of_ofNat (hb : 2 ≤ base) (hs : base ≤ Numeral.signs) {n : Nat}
    (h : ofNat base n = .ok s) : s.Begins (Digit base) := by
  rw [ofNat_eq hb hs] at h
  cases h
  exact Numeral.begins_digits hb n

theorem signed_of_ofInt (hb : 2 ≤ base) (hs : base ≤ Numeral.signs) {n : Int}
    (h : ofInt base n = .ok s) : s.Signed (Digit base) := by
  obtain ⟨digits, hdigits, h⟩ := Outcome.bind_eq_ok.mp h
  cases h
  exact (begins_of_ofNat hb hs hdigits).signed _

theorem begins_of_ofMagnitude (hb : 2 ≤ base) (hs : base ≤ Numeral.signs) {x : Binary64}
    (h : ofMagnitude base x = .ok s) : s.Begins (Digit base) := by
  obtain ⟨fraction, -, h⟩ := Outcome.bind_eq_ok.mp h
  obtain ⟨whole, hwhole, h⟩ := Outcome.bind_eq_ok.mp h
  have hbegins := begins_of_ofNat hb hs hwhole
  cases h
  split
  · exact hbegins
  · exact hbegins.append _

theorem signed_of_ofFloat (hb : 2 ≤ base) (hs : base ≤ Numeral.signs) {x : Binary64}
    (h : ofFloat base x = .ok s) : s.Signed (Digit base) := by
  unfold ofFloat at h
  split at h
  · cases h
  · split at h
    · cases h
    · split at h
      · exact signed_of_ofInt hb hs h
      · obtain ⟨magnitude, hmagnitude, h⟩ := Outcome.bind_eq_ok.mp h
        cases h
        exact (begins_of_ofMagnitude hb hs hmagnitude).signed _

theorem signed_of_ofDecimal (hb : 2 ≤ base) (hs : base ≤ Numeral.signs) {d : Decimal}
    (h : ofDecimal base d = .ok s) : s.Signed (Digit base) := by
  cases d with
  | finite negative c e =>
      unfold ofDecimal at h
      dsimp only at h
      split at h
      · exact signed_of_ofInt hb hs h
      · split at h
        · cases h
        · obtain ⟨magnitude, hmagnitude, h⟩ := Outcome.bind_eq_ok.mp h
          cases h
          exact (begins_of_ofMagnitude hb hs hmagnitude).signed _
  | infinite negative => cases h
  | nan negative signaling payload => cases h

end Radix

theorem Text.Signed.toUpper {base : Nat} (hb : base ≤ Numeral.signs) (h : s.Signed (Digit base)) :
    Text.Signed (Digit base) (s.map Char.toUpper) := by
  obtain ⟨negative, digits, rfl, hdigits⟩ := h
  have hsign : (Decimal.signText negative).map Char.toUpper = Decimal.signText negative := by
    cases negative <;> rfl
  rw [List.map_append, hsign]
  refine Text.Begins.signed ?_ negative
  cases digits with
  | nil => exact hdigits.elim
  | cons c digits => exact hdigits.toUpper hb

namespace Number

variable {n : Number} {k : Conversion} {fixed : Bool}

theorem isFinite_toDecimal (h : n.isFinite = true) : n.toDecimal.isFinite = true := by
  cases n with
  | int n => rfl
  | float x => exact Binary64.isFinite_toDecimal h
  | decimal d => exact h

theorem signed_of_inBase {base : Nat} (hb : 2 ≤ base) (hs : base ≤ Numeral.signs)
    (h : n.inBase base = .ok s) : s.Signed (Digit base) := by
  cases n with
  | int n => exact Radix.signed_of_ofInt hb hs h
  | float x => exact Radix.signed_of_ofFloat hb hs h
  | decimal d => exact Radix.signed_of_ofDecimal hb hs h

theorem signed_of_naturalText (hn : n.isFinite = true) (h : n.naturalText fixed = .ok s) :
    s.Signed (Digit 10) := by
  cases n with
  | int n => exact Numeral.signed_of_write h
  | float x =>
      cases h
      split
      · exact Decimal.signed_fixedText (Binary64.isFinite_toDecimal hn)
      · exact Binary64.signed_written hn true
  | decimal d =>
      cases h
      split
      · exact Decimal.signed_fixedText hn
      · exact Decimal.signed_text hn

/-- Whatever the conversion is, a finite number is written as a sign and digits of its base. -/
theorem signed_of_convert (hn : n.isFinite = true) (h : n.convert k fixed = .ok s) :
    s.Signed (Digit k.base) := by
  unfold convert at h
  split at h
  · next base hbase =>
      obtain ⟨hb, hs, -⟩ := Conversion.base_bounds hbase
      obtain ⟨digits, hdigits, h⟩ := Outcome.bind_eq_ok.mp h
      have hsigned := signed_of_inBase hb hs hdigits
      rw [Conversion.base, hbase, Option.getD_some]
      cases h
      split
      · exact hsigned.toUpper hs
      · exact hsigned
  · next hbase =>
      rw [Conversion.base, hbase, Option.getD_none]
      split at h
      · cases h
        exact Decimal.signed_scientificText (isFinite_toDecimal hn) _
      · split at h
        · exact Numeral.signed_of_ordinal h
        · exact signed_of_naturalText hn h

end Number

namespace Text

variable {c x : Char} {n : Int} {scientific : Bool}

theorem cut_cons (hc : c ≠ x) (s : Text) : cut x (c :: s) = (c :: (cut x s).1, (cut x s).2) := by
  have hne : (c != x) = true := bne_iff_ne.mpr hc
  have hdrop : (c :: s).dropWhile (· != x) = s.dropWhile (· != x) :=
    List.dropWhile_cons_of_pos hne
  have htake : (c :: s).takeWhile (· != x) = c :: s.takeWhile (· != x) :=
    List.takeWhile_cons_of_pos hne
  unfold cut
  rw [hdrop, htake]
  split
  · rfl
  · rfl

theorem splitPower_cons (he : c ≠ 'e' ∧ c ≠ 'E') (s : Text) :
    splitPower (c :: s) = (c :: (splitPower s).1, (splitPower s).2) := by
  unfold splitPower
  rw [cut_cons he.1, cut_cons he.2]
  rcases cut 'e' s with ⟨mantissa, _ | power⟩
  · rcases cut 'E' s with ⟨mantissa, _ | power⟩
    · rfl
    · rfl
  · rfl

/-- Digits behind the point leave a character in front of it alone. -/
theorem withPrecision_cons (hpoint : c ≠ '.') (he : scientific = true → c ≠ 'e' ∧ c ≠ 'E')
    (s : Text) : Text.withPrecision (c :: s) n scientific =
      (s.withPrecision n scientific).map (c :: ·) := by
  have hsplit : (if scientific then splitPower (c :: s) else (c :: s, [])) =
      (c :: (if scientific then s.splitPower else (s, [])).1,
        (if scientific then s.splitPower else (s, [])).2) := by
    cases scientific with
    | false => rfl
    | true => exact splitPower_cons (he rfl) s
  unfold withPrecision
  rw [hsplit]
  dsimp only
  rw [cut_cons hpoint]
  split
  · rfl
  · cases Text.count n <;> rfl

theorem Signed.withPrecision {s' : Text} (h : s.Signed p) (hpoint : ∀ c, p c → c ≠ '.')
    (he : scientific = true → ∀ c, p c → c ≠ 'e' ∧ c ≠ 'E')
    (hs : s.withPrecision n scientific = .ok s') : s'.Signed p := by
  have hbegins : ∀ {t t' : Text}, t.Begins p → t.withPrecision n scientific = .ok t' →
      t'.Begins p := by
    intro t t' ht ht'
    cases t with
    | nil => exact ht.elim
    | cons c t =>
        rw [withPrecision_cons (hpoint c ht) fun hk => he hk c ht] at ht'
        obtain ⟨rest, -, rfl⟩ := Outcome.map_eq_ok.mp ht'
        exact ht
  obtain ⟨negative, digits, rfl, hdigits⟩ := h
  cases negative with
  | false => exact (hbegins hdigits hs).signed false
  | true =>
      have hminus : Decimal.signText true ++ digits = '-' :: digits := rfl
      rw [hminus, withPrecision_cons (by decide) fun _ => by decide] at hs
      obtain ⟨rest, hrest, rfl⟩ := Outcome.map_eq_ok.mp hs
      exact (hbegins hdigits hrest).signed true

end Text

end SlotText
