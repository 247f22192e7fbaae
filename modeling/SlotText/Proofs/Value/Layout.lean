import SlotText.Rendered
import SlotText.Proofs.Number.Converted

/-!
# Laying out a value

A specifier with known amounts fits if its fill is one character and no amount is larger than an
index can be. Shaping a number by it, and aligning a text by it, then comes to an end for every
text: no count of zeros and no count of fills is out of bounds. So a value that can be written is
laid out, unless it is a decimal that the conversion cannot write. Without a width the zero flag
makes no difference.
-/
namespace SlotText

/-- All amounts are known and within the range of indices. -/
structure Specifier.Fits (spec : Specifier) : Prop where
  fill : ∃ c, spec.fill = [c]
  width : ∃ n, spec.width = .given n ∧ 0 ≤ n ∧ n ≤ Text.longest
  precision : ∀ n, spec.precision = .given n → 0 ≤ n ∧ n ≤ Text.longest

variable {spec : Specifier}

theorem Specifier.Fits.effective (h : spec.Fits) : spec.effective.Fits := by
  unfold Specifier.effective
  split
  · refine ⟨h.fill, h.width, ?_⟩
    intro n hn
    cases hn
  · exact h

/-- A sign and a mark of the base take three characters from the width. -/
theorem Text.count_eq_toNat {n : Int} (h₁ : -3 ≤ n) (h₂ : n ≤ longest) :
    count n = .ok n.toNat := by
  have hindex : isIndex n = true := by
    unfold isIndex
    unfold longest at h₂ ⊢
    simp only [Bool.and_eq_true, decide_eq_true_eq]
    omega
  exact if_pos hindex

theorem Text.exists_count {n : Int} (h₁ : -3 ≤ n) (h₂ : n ≤ longest) : ∃ k, count n = .ok k :=
  ⟨n.toNat, count_eq_toNat h₁ h₂⟩

theorem Text.exists_withPrecision (s : Text) {precision : Int} (h₁ : 0 ≤ precision)
    (h₂ : precision ≤ longest) (scientific : Bool) :
    ∃ s', s.withPrecision precision scientific = .ok s' := by
  obtain ⟨n, hn⟩ := exists_count (by omega) h₂
  unfold withPrecision
  simp only [hn, Outcome.ok_bind]
  split
  · exact ⟨_, rfl⟩
  · exact ⟨_, rfl⟩

namespace Shaped

/-- The text with the digits behind the point that the specifier asks for. -/
def withDigits (spec : Specifier) (finite : Bool) (s : Text) : Outcome Text :=
  match spec.precision.given? with
  | some p =>
    if finite && !spec.conversion.isOrdinal then s.withPrecision p spec.conversion.isScientific
    else .ok s
  | none => .ok s

/-- The sign of the text and the mark of the base. -/
def front (spec : Specifier) (s : Text) : Text :=
  (sign spec s).1 ++ if spec.pretty then spec.conversion.baseMark else []

/-- The text with zeros up to the width between its front and its digits. -/
def withFront (spec : Specifier) (finite : Bool) (s : Text) : Outcome Shaped :=
  match spec.width.given? with
  | some width =>
    if spec.zeroPad && (finite && !spec.conversion.isOrdinal) then do
      let n ← Text.count (width - (front spec s).length)
      return ⟨front spec s ++ (sign spec s).2.leftpad n '0', true⟩
    else .ok ⟨front spec s ++ (sign spec s).2, false⟩
  | none => .ok ⟨front spec s ++ (sign spec s).2, false⟩

theorem of_eq (spec : Specifier) (finite : Bool) (s : Text) :
    Shaped.of spec finite s = (withDigits spec finite s >>= withFront spec finite) := by
  unfold Shaped.of withDigits
  cases spec.precision.given? with
  | none => rfl
  | some p =>
      simp only
      split
      · rfl
      · rfl

theorem length_front_le (spec : Specifier) (s : Text) : (front spec s).length ≤ 3 := by
  have hsign : (sign spec s).1.length ≤ 1 := by
    unfold sign
    split
    · exact Nat.le_refl 1
    · cases spec.sign with
      | nothing => exact Nat.zero_le 1
      | plus => exact Nat.le_refl 1
      | blank => exact Nat.le_refl 1
  have hmark : (if spec.pretty then spec.conversion.baseMark else []).length ≤ 2 := by
    split
    · cases spec.conversion <;> decide
    · exact Nat.zero_le 2
  rw [front, List.length_append]
  omega

theorem exists_withDigits (h : spec.Fits) (finite : Bool) (s : Text) :
    ∃ s', withDigits spec finite s = .ok s' := by
  unfold withDigits
  split
  · next p hp =>
      obtain ⟨h₁, h₂⟩ := h.precision p (Amount.eq_given_of_given? hp)
      split
      · exact s.exists_withPrecision h₁ h₂ _
      · exact ⟨s, rfl⟩
  · exact ⟨s, rfl⟩

theorem exists_withFront (h : spec.Fits) (finite : Bool) (s : Text) :
    ∃ shaped, withFront spec finite s = .ok shaped := by
  obtain ⟨width, hwidth, hnonneg, hle⟩ := h.width
  have hfront := length_front_le spec s
  obtain ⟨n, hn⟩ := Text.exists_count (n := width - (front spec s).length) (by omega) (by omega)
  simp only [withFront, hwidth, Amount.given?, hn]
  split
  · exact ⟨_, rfl⟩
  · exact ⟨_, rfl⟩

theorem exists_of (h : spec.Fits) (finite : Bool) (s : Text) :
    ∃ shaped, Shaped.of spec finite s = .ok shaped := by
  obtain ⟨s', hs'⟩ := exists_withDigits h finite s
  obtain ⟨shaped, hshaped⟩ := exists_withFront h finite s'
  exact ⟨shaped, by rw [of_eq, hs', Outcome.ok_bind, hshaped]⟩

end Shaped

namespace Rendered

theorem exists_fillOf (c : Char) {n : Int} (h : n ≤ Text.longest) : ∃ s, fillOf [c] n = .ok s := by
  have hcopies : n * ([c] : Text).length ≤ Text.longest := by
    rw [List.length_singleton]
    omega
  rw [fillOf, if_neg (Int.not_lt.mpr h), if_neg (Int.not_lt.mpr hcopies)]
  exact ⟨_, rfl⟩

theorem align_of_le {r : Rendered} {width : Int} (h : width ≤ r.length) (a : Alignment)
    (fill : Text) : r.align width a fill = .ok r := by
  unfold align
  exact if_pos (by omega)

/-- Each side gets at most the deficit, which is at most the width. -/
theorem exists_align (r : Rendered) {width : Int} (h : width ≤ Text.longest) (a : Alignment)
    (c : Char) : ∃ r', r.align width a [c] = .ok r' := by
  unfold align
  simp only
  split
  · exact ⟨r, rfl⟩
  · cases a with
    | left =>
        obtain ⟨right, hright⟩ := exists_fillOf c (n := width - r.length) (by omega)
        simp only [hright, Outcome.ok_bind]
        exact ⟨_, rfl⟩
    | center =>
        obtain ⟨left, hleft⟩ := exists_fillOf c (n := (width - r.length) / 2) (by omega)
        obtain ⟨right, hright⟩ := exists_fillOf c
          (n := width - r.length - (width - r.length) / 2) (by omega)
        simp only [hleft, hright, Outcome.ok_bind]
        exact ⟨_, rfl⟩
    | right =>
        obtain ⟨left, hleft⟩ := exists_fillOf c (n := width - r.length) (by omega)
        simp only [hleft, Outcome.ok_bind]
        exact ⟨_, rfl⟩

end Rendered

namespace Value

variable {v : Value} {decorate : Bool} {e : Failure}

theorem eq_toValue_of_number? {n : Number} (h : v.number? = some n) : v = n.toValue := by
  cases v with
  | int m => cases h; rfl
  | float x => cases h; rfl
  | decimal d => cases h; rfl
  | _ => cases h

theorem toValue_eq_decimal_iff {n : Number} {d : Decimal} :
    n.toValue = .decimal d ↔ n = .decimal d := by
  cases n <;> simp [Number.toValue]

theorem not_unwritten_inspection {d : Decimal} : ¬d.Unwritten .inspection e := by
  intro h
  cases h with
  | ordinal hk _ => cases hk
  | radix hk _ _ _ => cases hk

/-- Apart from finite numbers, every value that can be written has a text for all conversions. -/
theorem convert_eq_error_iff (hv : v.Writable) :
    v.convert spec decorate = .error e ↔ ∃ d, v = .decimal d ∧ d.Unwritten spec.conversion e := by
  obtain ⟨s, hplain⟩ := exists_plain hv
  unfold convert
  split
  · next hk =>
      apply iff_of_false (Outcome.ok_ne_error _ e)
      rintro ⟨d, -, hd⟩
      rw [hk] at hd
      exact not_unwritten_inspection hd
  · split
    · next n hn =>
        have hvalue := eq_toValue_of_number? hn
        subst hvalue
        simp only [toValue_eq_decimal_iff]
        split
        · next hfinite =>
            rw [Outcome.map_eq_error_iff]
            exact Number.convert_eq_error_iff hfinite hv
        · next hfinite =>
            rw [hplain]
            apply iff_of_false (Outcome.ok_ne_error _ e)
            rintro ⟨d, rfl, hd⟩
            exact hfinite hd.isFinite
    · next hnone =>
        rw [hplain]
        apply iff_of_false (Outcome.ok_ne_error _ e)
        rintro ⟨d, rfl, -⟩
        cases hnone

/-- A value that can be written is laid out, unless the conversion cannot write it. -/
theorem layOut_eq_error_iff (hv : v.Writable) (hs : spec.Fits) :
    v.layOut spec decorate = .error e ↔ ∃ d, v = .decimal d ∧ d.Unwritten spec.conversion e := by
  have hconvert : v.convert spec.effective decorate = .error e ↔ _ := convert_eq_error_iff hv
  rw [← spec.conversion_effective, ← hconvert]
  obtain ⟨width, hwidth, -, hle⟩ := hs.effective.width
  obtain ⟨c, hfill⟩ := hs.effective.fill
  have htarget : spec.effective.targetWidth = width := by
    rw [Specifier.targetWidth, hwidth]
    rfl
  have halign : ∀ r : Rendered, ∃ r', r.align spec.effective.targetWidth spec.effective.alignment
      spec.effective.fill = .ok r' := by
    intro r
    rw [htarget, hfill]
    exact r.exists_align hle _ c
  apply Outcome.bind_eq_error_iff
  intro r
  obtain ⟨shaped, hshaped⟩ := Shaped.exists_of hs.effective v.isFinite r.plain
  split
  · rw [hshaped, Outcome.ok_bind]
    split
    · exact ⟨_, rfl⟩
    · exact halign _
  · exact halign r

end Value

theorem Shaped.withFront_of_width_zero (hw : spec.width = .given 0) (finite : Bool) (s : Text) :
    ∃ padded, withFront spec finite s = .ok ⟨front spec s ++ (sign spec s).2, padded⟩ := by
  have hfront := length_front_le spec s
  have hcount : Text.count (0 - (front spec s).length) = .ok 0 := by
    have hle : (0 : Int) - (front spec s).length ≤ Text.longest := by
      have hlongest : (0 : Int) ≤ Text.longest := by decide
      omega
    rw [Text.count_eq_toNat (by omega) hle]
    congr 1
    omega
  have hpad : (sign spec s).2.leftpad 0 '0' = (sign spec s).2 := by
    rw [List.leftpad, Nat.zero_sub]
    rfl
  simp only [withFront, hw, Amount.given?]
  split
  · rw [hcount, Outcome.ok_bind, hpad]
    exact ⟨true, rfl⟩
  · exact ⟨false, rfl⟩

theorem Shaped.align_of_width_zero (hw : spec.width = .given 0) (finite : Bool) (s : Text) :
    (do
      let shaped ← Shaped.of spec finite s
      if shaped.zeroPadded then return .of shaped.text
      (Rendered.of shaped.text).align spec.targetWidth spec.alignment spec.fill) =
      (withDigits spec finite s >>= fun s => .ok (.of (front spec s ++ (sign spec s).2))) := by
  have htarget : spec.targetWidth = 0 := by
    rw [Specifier.targetWidth, hw]
    rfl
  rw [of_eq, bind_assoc, htarget]
  cases withDigits spec finite s with
  | error e => rfl
  | ok s =>
      obtain ⟨padded, hfront⟩ := withFront_of_width_zero hw finite s
      rw [Outcome.ok_bind, Outcome.ok_bind, hfront, Outcome.ok_bind]
      cases padded with
      | true => rfl
      | false => exact Rendered.align_of_le (Int.natCast_nonneg _) _ _

/-- Zeros fill nothing if the width is zero. -/
theorem Value.layOut_zeroPad (v : Value) (hw : spec.width = .given 0) (z decorate : Bool) :
    v.layOut { spec with zeroPad := z } decorate = v.layOut spec decorate := by
  by_cases hc : spec.conversion = .inspection
  · have heffective : Specifier.effective { spec with zeroPad := z } = spec.effective := by
      rw [Specifier.effective, Specifier.effective, if_pos hc, if_pos hc]
    rw [layOut, layOut, heffective]
  · have heffective : Specifier.effective { spec with zeroPad := z } =
        { spec with zeroPad := z } := if_neg hc
    have heffective' : spec.effective = spec := if_neg hc
    rw [layOut, layOut, heffective, heffective']
    have hconvert : v.convert { spec with zeroPad := z } decorate = v.convert spec decorate := rfl
    rw [hconvert]
    cases v.convert spec decorate with
    | error e => rfl
    | ok r =>
        rw [Outcome.ok_bind, Outcome.ok_bind]
        dsimp only
        split
        · have hpadded := @Shaped.align_of_width_zero { spec with zeroPad := z } hw v.isFinite
            r.plain
          exact hpadded.trans (Shaped.align_of_width_zero hw v.isFinite r.plain).symm
        · rfl

end SlotText
