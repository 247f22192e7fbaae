import SlotText.Proofs.Decimal.Scientific
import SlotText.Proofs.Number.Expanded
import SlotText.Proofs.Value.Padded

/-!
# Cutting off digits

Digits behind the point are cut off or filled up with zeros in the text of a number. No digit of a
base is taken for a point, and no decimal digit for the marker of a power of ten, so the text is cut
at its point and at its marker. What is written after that is the truncated expansion, with the sign
and the power that were there before.
-/
namespace SlotText

open Numeral (Digit signIn)

variable {base p : Nat} {c x marker : Char} {s t w power : Text} {y : Expansion}
variable {negative upper : Bool}

theorem Numeral.digit_signIn {d : Nat} (hd : d < base) (upper : Bool) :
    Digit base (signIn upper d) := by
  cases upper with
  | true => exact ⟨d, hd, .inr rfl⟩
  | false => exact ⟨d, hd, .inl rfl⟩

namespace Expansion

theorem begins_text (h : y.Valid base) (upper : Bool) : (y.text upper).Begins (Digit base) := by
  obtain ⟨d, ds, hwhole, hd⟩ := h.exists_cons
  rw [text, hwhole]
  exact Numeral.digit_signIn hd upper

theorem map_toUpper_text (y : Expansion) : (y.text false).map Char.toUpper = y.text true := by
  unfold text
  rw [List.map_append, List.map_map]
  split
  · rfl
  · rw [List.map_cons, List.map_map]
    rfl

/-- The characters of an expansion are digits and the point. -/
theorem digit_of_mem_text (h : y.Valid base) (hc : c ∈ y.text upper) : Digit base c ∨ c = '.' := by
  rcases List.mem_append.mp hc with hc | hc
  · obtain ⟨d, hd, rfl⟩ := List.mem_map.mp hc
    exact .inl (Numeral.digit_signIn (h.whole_lt d hd) upper)
  · split at hc
    · cases hc
    · rcases List.mem_cons.mp hc with rfl | hc
      · exact .inr rfl
      · obtain ⟨d, hd, rfl⟩ := List.mem_map.mp hc
        exact .inl (Numeral.digit_signIn (h.fraction_lt d hd) upper)

end Expansion

theorem Decimal.map_toUpper_signText (negative : Bool) :
    (signText negative).map Char.toUpper = signText negative := by
  cases negative <;> rfl

theorem Decimal.eq_minus_of_mem_signText (hc : c ∈ signText negative) : c = '-' := by
  cases negative with
  | true => exact List.mem_singleton.mp hc
  | false => cases hc

namespace Text

theorem cut_append (hw : ∀ c ∈ w, c ≠ x) (t : Text) :
    cut x (w ++ t) = (w ++ (cut x t).1, (cut x t).2) := by
  induction w with
  | nil => rfl
  | cons c w ih =>
      rw [List.cons_append, cut_cons (hw c List.mem_cons_self),
        ih fun c hc => hw c (List.mem_cons_of_mem _ hc), List.cons_append]

theorem cut_self (x : Char) (t : Text) : cut x (x :: t) = ([], some t) := by
  simp [cut]

theorem cut_of_not_mem (hw : ∀ c ∈ w, c ≠ x) : cut x w = (w, none) := by
  have hcut := cut_append hw []
  have hnil : cut x [] = ([], none) := rfl
  rwa [hnil, List.append_nil] at hcut

theorem splitPower_append (hw : ∀ c ∈ w, c ≠ 'e' ∧ c ≠ 'E') (t : Text) :
    splitPower (w ++ t) = (w ++ (splitPower t).1, (splitPower t).2) := by
  induction w with
  | nil => rfl
  | cons c w ih =>
      rw [List.cons_append, splitPower_cons (hw c List.mem_cons_self),
        ih fun c hc => hw c (List.mem_cons_of_mem _ hc), List.cons_append]

theorem splitPower_marker (hmarker : marker = 'e' ∨ marker = 'E') (ht : ∀ c ∈ t, c ≠ 'e') :
    splitPower (marker :: t) = ([], marker :: t) := by
  rcases hmarker with rfl | rfl
  · rw [splitPower, cut_self]
  · have hlower : cut 'e' ('E' :: t) = ('E' :: t, none) := by
      apply cut_of_not_mem
      exact List.forall_mem_cons.mpr ⟨by decide, ht⟩
    rw [splitPower, hlower, cut_self]

theorem sliceTo_natCast (s : Text) (p : Nat) : s.sliceTo p = s.take p := by
  have hboundary : boundary s.length p = min p s.length := by
    rw [boundary, if_neg (by omega), Int.toNat_natCast]
  rw [sliceTo, hboundary, List.take_eq_take_iff, Nat.min_assoc, Nat.min_self]

/-- The point of an expansion is the only one, and it is left out with nothing behind it. -/
theorem cut_text (h : y.Valid base) (hb : base ≤ Numeral.signs) (negative upper : Bool) :
    cut '.' (Decimal.signText negative ++ y.text upper) =
      (Decimal.signText negative ++ y.whole.map (signIn upper),
        if y.fraction = [] then none else some (y.fraction.map (signIn upper))) := by
  have hplain : ∀ c ∈ Decimal.signText negative ++ y.whole.map (signIn upper), c ≠ '.' := by
    intro c hc
    rcases List.mem_append.mp hc with hc | hc
    · rw [Decimal.eq_minus_of_mem_signText hc]
      decide
    · obtain ⟨d, hd, rfl⟩ := List.mem_map.mp hc
      exact ((Numeral.digit_signIn (h.whole_lt d hd) upper).ne hb).2
  rw [Expansion.text, ← List.append_assoc, cut_append hplain]
  split
  · rw [cut_of_not_mem (by simp), List.append_nil]
  · rw [cut_self, List.append_nil]

/-- Digits up to a place, with zeros where there are none. -/
theorem rightpad_sliceTo (ds : List Nat) (upper : Bool) (p : Nat) :
    (Text.sliceTo (ds.map (signIn upper)) p).rightpad p '0' =
      (ds.take p ++ List.replicate (p - ds.length) 0).map (signIn upper) := by
  have hlength : p - (ds.take p).length = p - ds.length := by
    rw [List.length_take]
    omega
  rw [sliceTo_natCast, List.rightpad, List.map_append, List.map_replicate, Numeral.signIn_zero,
    ← List.map_take, List.length_map, hlength]

/-- Whatever is split off as the power, the digits in front of it are truncated. -/
theorem withPrecision_of_split {scientific : Bool} (h : y.Valid base) (hb : base ≤ Numeral.signs)
    (hp : (p : Int) ≤ longest) (hsplit : (if scientific then s.splitPower else (s, [])) =
      (Decimal.signText negative ++ y.text upper, power)) :
    s.withPrecision p scientific =
      .ok (Decimal.signText negative ++ (y.truncated p).text upper ++ power) := by
  have hcount : count p = .ok p := by
    rw [count_eq_toNat (by omega) hp, Int.toNat_natCast]
  unfold withPrecision
  rw [hsplit]
  dsimp only
  rw [cut_text h hb]
  by_cases hzero : p = 0
  · subst hzero
    have hwhole : y.truncated 0 = ⟨y.whole, []⟩ := by
      rw [Expansion.truncated, List.take_zero, Nat.zero_sub]
      rfl
    rw [if_pos (by rfl), hwhole, Expansion.text_of_fraction_eq_nil]
    rfl
  · have hfraction : (y.truncated p).fraction ≠ [] := by
      apply List.ne_nil_of_length_pos
      rw [Expansion.length_fraction_truncated]
      omega
    -- Without a point in the text there is nothing to cut, and zeros are put behind a new point.
    have hgetD : (if y.fraction = [] then none
        else some (y.fraction.map (signIn upper))).getD [] = y.fraction.map (signIn upper) := by
      split
      · next hnil => rw [hnil]; rfl
      · rfl
    rw [if_neg (by omega), hcount, Outcome.ok_bind, hgetD, rightpad_sliceTo, Expansion.text,
      if_neg hfraction]
    exact congrArg (fun t => Except.ok (t ++ power)) (List.append_assoc _ _ _)

theorem withPrecision_text (h : y.Valid base) (hb : base ≤ Numeral.signs)
    (hp : (p : Int) ≤ longest) (negative upper : Bool) :
    Text.withPrecision (Decimal.signText negative ++ y.text upper) p false =
      .ok (Decimal.signText negative ++ (y.truncated p).text upper) := by
  have hsplit : (if false = true then splitPower (Decimal.signText negative ++ y.text upper)
      else (Decimal.signText negative ++ y.text upper, [])) =
        (Decimal.signText negative ++ y.text upper, []) := rfl
  rw [withPrecision_of_split h hb hp hsplit, List.append_nil]

/-- The power of ten of a scientific numeral is kept. -/
theorem withPrecision_power (hmarker : marker = 'e' ∨ marker = 'E') (h : y.Valid 10)
    (hp : (p : Int) ≤ longest) (negative : Bool) (ht : ∀ c ∈ t, c ≠ 'e') :
    Text.withPrecision (Decimal.signText negative ++ (y.text false ++ marker :: t)) p true =
      .ok (Decimal.signText negative ++ ((y.truncated p).text false ++ marker :: t)) := by
  have hmantissa : ∀ c ∈ Decimal.signText negative ++ y.text false, c ≠ 'e' ∧ c ≠ 'E' := by
    intro c hc
    rcases List.mem_append.mp hc with hc | hc
    · rw [Decimal.eq_minus_of_mem_signText hc]
      decide
    · rcases Expansion.digit_of_mem_text h hc with hdigit | rfl
      · exact hdigit.ne_marker
      · decide
  have hsplit := splitPower_append hmantissa (marker :: t)
  rw [splitPower_marker hmarker ht, List.append_nil] at hsplit
  rw [← List.append_assoc, ← List.append_assoc]
  exact withPrecision_of_split h (by decide) hp hsplit

end Text

theorem Decimal.ne_marker_of_mem_exponentText {k : Int} (hc : c ∈ exponentText k) : c ≠ 'e' := by
  rcases List.mem_cons.mp hc with rfl | hc
  · split
    · decide
    · decide
  · obtain ⟨d, hd, rfl⟩ := List.mem_map.mp hc
    exact (Numeral.Digit.ne_marker ⟨d, Numeral.lt_of_mem_digits (by decide) hd, .inl rfl⟩).1

/-- The sign that a specifier puts in front of a number. -/
def Specifier.signOf (spec : Specifier) (negative : Bool) : Text :=
  if negative then ['-'] else spec.sign.text

variable {spec : Specifier} {n : Number} {decorate : Bool}

theorem Specifier.mark_of_base?_eq_none (h : spec.conversion.base? = none) : spec.mark = [] := by
  have hmark : spec.conversion.baseMark = [] := by
    cases hk : spec.conversion <;> first | rfl | (rw [hk] at h; cases h)
  rw [mark, hmark, ite_self]

theorem Conversion.of_base?_eq_some {k : Conversion} (h : k.base? = some base) :
    k ≠ .inspection ∧ k.isOrdinal = false ∧ k.isScientific = false := by
  cases k with
  | octal => decide
  | hexLower => decide
  | hexUpper => decide
  | binary => decide
  | _ => cases h

theorem Conversion.of_isScientific {k : Conversion} (h : k.isScientific = true) :
    k.base? = none ∧ k ≠ .inspection ∧ k.isOrdinal = false := by
  cases k with
  | scientificLower => decide
  | scientificUpper => decide
  | _ => cases h

theorem Shaped.sign_signText (spec : Specifier) (hb : base ≤ Numeral.signs)
    (ht : t.Begins (Digit base)) (negative : Bool) :
    sign spec (Decimal.signText negative ++ t) = (spec.signOf negative, t) := by
  cases negative with
  | true => rfl
  | false =>
      cases t with
      | nil => exact ht.elim
      | cons c t =>
          have hempty : Decimal.signText false ++ c :: t = c :: t := rfl
          rw [hempty, sign]
          · rfl
          · exact fun rest hrest => (ht.ne hb).1 (List.cons.inj hrest).1

theorem Numeral.ofInt_eq (m : Int) : ofInt m = Decimal.signText (m < 0) ++ ofNat m.natAbs := by
  cases m with
  | ofNat m =>
      have hsign : ¬Int.ofNat m < 0 := Int.not_lt.mpr (Int.natCast_nonneg m)
      rw [decide_eq_false hsign]
      rfl
  | negSucc m =>
      rw [decide_eq_true (Int.negSucc_lt_zero m)]
      rfl

theorem Decimal.fixedText_ofInt (m : Int) : (ofInt m).fixedText = Numeral.ofInt m := by
  have hlength := List.length_pos_of_ne_nil (Numeral.ofNat_ne_nil m.natAbs)
  have hplace : placePoint (Numeral.ofNat m.natAbs) (0 + (Numeral.ofNat m.natAbs).length) =
      Numeral.ofNat m.natAbs := by
    have hzeros : (0 + ((Numeral.ofNat m.natAbs).length : Int)).toNat -
        (Numeral.ofNat m.natAbs).length = 0 := by omega
    rw [placePoint, if_neg (by omega), if_pos (by omega), hzeros]
    exact List.append_nil _
  rw [Numeral.ofInt_eq, ofInt, fixedText, hplace]
  split
  · next hzero => rw [hzero.1]; rfl
  · rfl

/-- The natural text with a precision is that of the decimal, also for a whole number. -/
theorem Number.naturalText_fixed (hw : n.toValue.Writable) :
    n.naturalText true = .ok n.toDecimal.fixedText := by
  cases n with
  | int m => rw [naturalText, Numeral.write_eq_ok hw, toDecimal, Decimal.fixedText_ofInt]
  | float x => rfl
  | decimal d => rfl

/-- Without a power of ten, a number is written as an expansion of what it stands for. -/
theorem Number.exists_fixedText (hn : n.isFinite = true) : ∃ y : Expansion,
    n.toDecimal.fixedText = Decimal.signText n.toDecimal.isNegative ++ y.text false ∧
      y.Valid 10 ∧ y.value 10 = |n.toDecimal.toRat| := by
  obtain ⟨negative, c, e, hd⟩ := Decimal.exists_finite (isFinite_toDecimal hn)
  rw [hd, Decimal.abs_toRat]
  exact Decimal.exists_fixedText negative c e

namespace Value

/-- Without a width, a number is laid out as its sign, the mark of the base and the digits that the
precision leaves. -/
theorem layOut_of_withPrecision (hn : n.isFinite = true) (hk : spec.conversion ≠ .inspection)
    (hordinal : spec.conversion.isOrdinal = false) (hwidth : spec.width = .given 0)
    (hp : spec.precision = .given p) (hb : base ≤ Numeral.signs) (ht : t.Begins (Digit base))
    (hs : n.convert spec.conversion true = .ok s)
    (hdigits : s.withPrecision p spec.conversion.isScientific =
      .ok (Decimal.signText negative ++ t)) :
    n.toValue.layOut spec decorate = .ok (.of (spec.signOf negative ++ spec.mark ++ t)) := by
  have hnumber : n.toValue.numberText n spec = .ok (Decimal.signText negative ++ t) := by
    have hfixed : decide (spec.precision ≠ .absent) = true := by
      rw [hp]
      rfl
    rw [numberText, if_pos hn, hfixed, hs, Outcome.ok_bind, Shaped.withDigits, hp]
    simp only [Amount.given?, hn, hordinal, Bool.not_false, Bool.and_self, if_true, hdigits]
  have hsign := Shaped.sign_signText spec hb ht negative
  obtain ⟨padded, hfront⟩ :=
    Shaped.withFront_of_width_zero hwidth n.isFinite (Decimal.signText negative ++ t)
  have htarget : spec.targetWidth = 0 := by
    rw [Specifier.targetWidth, hwidth]
    rfl
  rw [layOut_of_number?_eq_some spec hk (number?_toValue n), hnumber, Outcome.ok_bind, hfront,
    Outcome.ok_bind, Shaped.front, hsign, htarget]
  cases padded with
  | true => rfl
  | false => exact Rendered.align_of_le (Int.natCast_nonneg _) _ _

theorem layOut_natural (hn : n.isFinite = true) (hw : n.toValue.Writable)
    (hwidth : spec.width = .given 0) (hp : spec.precision = .given p)
    (hle : (p : Int) ≤ Text.longest) (hk : spec.conversion = .natural) :
    ∃ y : Expansion, y.Truncates 10 p |n.toDecimal.toRat| ∧ n.toValue.layOut spec decorate =
      .ok (.of (spec.signOf n.toDecimal.isNegative ++ y.text false)) := by
  obtain ⟨y, htext, hvalid, hvalue⟩ := Number.exists_fixedText hn
  have htruncates := hvalid.truncates (by decide) p
  have hs : n.convert spec.conversion true = .ok n.toDecimal.fixedText := by
    rw [hk]
    exact Number.naturalText_fixed hw
  have hdigits : n.toDecimal.fixedText.withPrecision p spec.conversion.isScientific =
      .ok (Decimal.signText n.toDecimal.isNegative ++ (y.truncated p).text false) := by
    rw [hk, htext]
    exact Text.withPrecision_text hvalid (by decide) hle n.toDecimal.isNegative false
  have hmark := spec.mark_of_base?_eq_none (by rw [hk]; rfl)
  have hbegins := Expansion.begins_text htruncates.toValid false
  rw [hvalue] at htruncates
  refine ⟨y.truncated p, htruncates, ?_⟩
  rw [layOut_of_withPrecision hn (by rw [hk]; decide) (by rw [hk]; rfl) hwidth hp (by decide)
    hbegins hs hdigits, hmark, List.append_nil]

theorem convert_of_inBase {fixed : Bool} (hk : spec.conversion.base? = some base)
    (hs : n.inBase base = .ok (Decimal.signText negative ++ y.text false)) :
    n.convert spec.conversion fixed =
      .ok (Decimal.signText negative ++ y.text spec.conversion.isUpper) := by
  have hupper : (Decimal.signText negative ++ y.text false).map Char.toUpper =
      Decimal.signText negative ++ y.text true := by
    rw [List.map_append, Decimal.map_toUpper_signText, Expansion.map_toUpper_text]
  simp only [Number.convert, hk, hs, Outcome.ok_bind, Outcome.pure_eq, hupper]
  cases spec.conversion.isUpper with
  | true => rfl
  | false => rfl

theorem layOut_radix (hn : n.isFinite = true) (hwidth : spec.width = .given 0)
    (hp : spec.precision = .given p) (hle : (p : Int) ≤ Text.longest)
    (hk : spec.conversion.base? = some base) (hs : n.inBase base = .ok s) :
    ∃ negative r, s.Expands base negative r ∧ ∃ y : Expansion, y.Truncates base p r ∧
      n.toValue.layOut spec decorate =
        .ok (.of (spec.signOf negative ++ spec.mark ++ y.text spec.conversion.isUpper)) := by
  obtain ⟨hb, hsigns, heven⟩ := Conversion.base_bounds hk
  obtain ⟨hinspection, hordinal, hscientific⟩ := Conversion.of_base?_eq_some hk
  obtain ⟨negative, r, hexpands⟩ := Number.expands_of_inBase hb hsigns heven hn hs
  refine ⟨negative, r, hexpands, ?_⟩
  obtain ⟨y, hcanonical, hvalue, rfl⟩ := hexpands
  have htruncates := hcanonical.toValid.truncates hb p
  have hdigits := Text.withPrecision_text hcanonical.toValid hsigns hle negative
    spec.conversion.isUpper
  have hbegins := Expansion.begins_text htruncates.toValid spec.conversion.isUpper
  rw [← hscientific] at hdigits
  rw [hvalue] at htruncates
  exact ⟨y.truncated p, htruncates, layOut_of_withPrecision hn hinspection hordinal hwidth hp
    hsigns hbegins (convert_of_inBase hk hs) hdigits⟩

theorem layOut_scientific (hn : n.isFinite = true) (hwidth : spec.width = .given 0)
    (hp : spec.precision = .given p) (hle : (p : Int) ≤ Text.longest)
    (hk : spec.conversion.isScientific = true) : ∃ x : Scientific,
    n.toDecimal.scientificText spec.conversion.isUpper =
      x.text spec.conversion.isUpper n.toDecimal.isNegative ∧
    ∃ y : Expansion, y.Truncates 10 p (x.mantissa.value 10) ∧ n.toValue.layOut spec decorate =
      .ok (.of (spec.signOf n.toDecimal.isNegative ++ (y.text false ++
        Scientific.marker spec.conversion.isUpper :: Decimal.exponentText x.order))) := by
  obtain ⟨x, -, htext⟩ := Number.exists_scientific hn
  obtain ⟨hnone, hinspection, hordinal⟩ := Conversion.of_isScientific hk
  have htruncates := x.canonical.toValid.truncates (by decide) p
  have hs : n.convert spec.conversion true =
      .ok (n.toDecimal.scientificText spec.conversion.isUpper) := by
    simp only [Number.convert, hnone, hk, if_true]
  have hdigits : (n.toDecimal.scientificText spec.conversion.isUpper).withPrecision p
      spec.conversion.isScientific = .ok (Decimal.signText n.toDecimal.isNegative ++
        ((x.mantissa.truncated p).text false ++
          Scientific.marker spec.conversion.isUpper :: Decimal.exponentText x.order)) := by
    rw [htext, hk]
    exact Text.withPrecision_power (Scientific.marker_eq _) x.canonical.toValid hle _ fun c hc =>
      Decimal.ne_marker_of_mem_exponentText hc
  have hbegins := (Expansion.begins_text htruncates.toValid false).append
    (Scientific.marker spec.conversion.isUpper :: Decimal.exponentText x.order)
  refine ⟨x, htext _, x.mantissa.truncated p, htruncates, ?_⟩
  rw [layOut_of_withPrecision hn hinspection hordinal hwidth hp (by decide) hbegins hs hdigits,
    spec.mark_of_base?_eq_none hnone, List.append_nil]

/-- Without a width, a precision leaves as many digits behind the point of a finite number as it
says: the natural text is the number rounded toward zero to them, as the decimal that it is taken
for, in another base the number that is written there is rounded so, and in a scientific text the
mantissa, with the same power of ten. The sign is that of the whole number, even if nothing but
zeros are left. -/
theorem layOut_truncates (hn : n.isFinite = true) (hw : n.toValue.Writable)
    (hwidth : spec.width = .given 0) (hp : spec.precision = .given p)
    (hle : (p : Int) ≤ Text.longest) (decorate : Bool) :
    (spec.conversion = .natural → ∃ y : Expansion, y.Truncates 10 p |n.toDecimal.toRat| ∧
      n.toValue.layOut spec decorate =
        .ok (.of (spec.signOf n.toDecimal.isNegative ++ y.text false))) ∧
    (∀ base s, spec.conversion.base? = some base → n.inBase base = .ok s →
      ∃ negative r, s.Expands base negative r ∧ ∃ y : Expansion, y.Truncates base p r ∧
        n.toValue.layOut spec decorate =
          .ok (.of (spec.signOf negative ++ spec.mark ++ y.text spec.conversion.isUpper))) ∧
    (spec.conversion.isScientific = true → ∃ x : Scientific,
      n.toDecimal.scientificText spec.conversion.isUpper =
        x.text spec.conversion.isUpper n.toDecimal.isNegative ∧
      ∃ y : Expansion, y.Truncates 10 p (x.mantissa.value 10) ∧ n.toValue.layOut spec decorate =
        .ok (.of (spec.signOf n.toDecimal.isNegative ++ (y.text false ++
          Scientific.marker spec.conversion.isUpper :: Decimal.exponentText x.order)))) :=
  ⟨layOut_natural hn hw hwidth hp hle,
    fun _ _ hk hs => layOut_radix hn hwidth hp hle hk hs,
    layOut_scientific hn hwidth hp hle⟩

/-- Nines are cut off like other digits. -/
theorem layOut_truncates_nines :
    let n : Number := .decimal (.finite true 29999 (-4))
    let spec : Specifier := { precision := .given 2 }
    (∃ y : Expansion, y.Truncates 10 2 |n.toDecimal.toRat| ∧
      n.toValue.layOut spec false = .ok (.of ('-' :: y.text false))) ∧
    n.toValue.layOut spec false = .ok (.of "-2.99".toList) := by
  intro n spec
  have hw : n.toValue.Writable := trivial
  have hp : spec.precision = .given (2 : Nat) := rfl
  have htruncates := @layOut_truncates 2 spec n rfl hw rfl hp (by decide) false
  exact ⟨htruncates.1 rfl, by decide +kernel⟩

end Value

end SlotText
