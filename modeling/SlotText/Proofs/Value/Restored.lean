import SlotText.Proofs.Value.Truncated

/-!
# Whole numbers read back

A whole number in another base is laid out as a sign, the mark of the base, digits and the zeros
that a precision asks for, filled up to the width with zeros behind the mark or with spaces around
it all. Zeros in front of the digits do not change what they stand for, and nothing but the fill and
the blank sign is a space. So whatever is left without the spaces around it is the number.
-/
namespace SlotText

open Numeral (Digit)

variable {base w : Nat} {c : Char} {s t : Text} {n : Number} {v : Value} {spec : Specifier}
variable {decorate : Bool}

namespace Text

/-- The text without the copies of a character at both ends. -/
def stripped (c : Char) (s : Text) : Text :=
  ((s.dropWhile (· == c)).reverse.dropWhile (· == c)).reverse

theorem dropWhile_replicate (hne : t ≠ []) (ht : ∀ d ∈ t, d ≠ c) (n : Nat) (s : Text) :
    (List.replicate n c ++ (t ++ s)).dropWhile (· == c) = t ++ s := by
  obtain ⟨d, t, rfl⟩ := List.exists_cons_of_ne_nil hne
  have hd : ¬(d == c) = true := mt beq_iff_eq.mp (ht d List.mem_cons_self)
  rw [List.dropWhile_append_of_pos fun x hx => beq_iff_eq.mpr (List.mem_replicate.mp hx).2]
  exact List.dropWhile_cons_of_neg hd

theorem stripped_filled (hne : t ≠ []) (ht : ∀ d ∈ t, d ≠ c) (left right : Nat) :
    stripped c (List.replicate left c ++ t ++ List.replicate right c) = t := by
  have hreverse : ∀ d ∈ t.reverse, d ≠ c := fun d hd => ht d (List.mem_reverse.mp hd)
  have hdrop := dropWhile_replicate (mt List.reverse_eq_nil_iff.mp hne) hreverse right []
  rw [List.append_nil] at hdrop
  rw [stripped, List.append_assoc, dropWhile_replicate hne ht, List.reverse_append,
    List.reverse_replicate, hdrop, List.reverse_reverse]

end Text

theorem Numeral.Digit.ne_space (h : Digit base c) (hb : base ≤ Numeral.signs) : c ≠ ' ' := by
  have hall : ∀ d < signs, sign d ≠ ' ' ∧ (sign d).toUpper ≠ ' ' := by decide
  obtain ⟨d, hd, rfl | rfl⟩ := h
  · exact (hall d (hd.trans_le hb)).1
  · exact (hall d (hd.trans_le hb)).2

/-- A number is filled up with zeros between its front and its digits, or with copies of the fill
around it. -/
theorem Value.exists_filled (hk : spec.conversion ≠ .inspection) (hn : v.number? = some n)
    (hfill : spec.fill = [c]) (hwidth : spec.width = .given w) (hw : (w : Int) ≤ Text.longest)
    (hs : v.numberText n spec = .ok s) : ∃ r left zeros right, v.layOut spec decorate = .ok r ∧
      r.plain = List.replicate left c ++ (Shaped.front spec s ++ (List.replicate zeros '0' ++
        (Shaped.sign spec s).2)) ++ List.replicate right c := by
  have htarget : spec.targetWidth = w := by
    rw [Specifier.targetWidth, hwidth]
    rfl
  rw [layOut_of_number?_eq_some spec hk hn, hs, Outcome.ok_bind]
  cases hzero : spec.zeroPad && (n.isFinite && !spec.conversion.isOrdinal) with
  | true =>
      rw [Shaped.withFront_of_zeroFilled spec hwidth hw hzero, Outcome.ok_bind]
      refine ⟨_, 0, w - (Shaped.front spec s).length - (Shaped.sign spec s).2.length, 0, rfl, ?_⟩
      rw [List.replicate_zero, List.nil_append, List.append_nil]
      rfl
  | false =>
      obtain ⟨r, hr⟩ := (Rendered.of (Shaped.front spec s ++ (Shaped.sign spec s).2)).exists_align
        hw spec.alignment c
      rw [Shaped.withFront_of_aligned spec hzero, Outcome.ok_bind, htarget, hfill]
      exact ⟨r, _, 0, _, hr, Rendered.plain_of_align hr⟩

namespace Expansion

variable {ds es : List Nat}

theorem truncated_whole (p : Nat) (ds : List Nat) :
    truncated p ⟨ds, []⟩ = ⟨ds, List.replicate p 0⟩ := by
  rw [truncated, List.take_nil]
  rfl

/-- Zeros in front of the digits are digits too. -/
theorem Valid.zeros (h : Valid base ⟨ds, es⟩) (n : Nat) :
    Valid base ⟨List.replicate n 0 ++ ds, es⟩ := by
  refine ⟨fun hnil => h.whole_ne_nil (List.append_eq_nil_iff.mp hnil).2, fun d hd => ?_,
    h.fraction_lt⟩
  rcases List.mem_append.mp hd with hd | hd
  · obtain ⟨e, hds⟩ := List.exists_mem_of_ne_nil _ h.whole_ne_nil
    rw [(List.mem_replicate.mp hd).2]
    exact Nat.zero_lt_of_lt (h.whole_lt e hds)
  · exact h.whole_lt d hd

theorem zeros_text (upper : Bool) (n : Nat) (ds es : List Nat) :
    List.replicate n '0' ++ text upper ⟨ds, es⟩ = text upper ⟨List.replicate n 0 ++ ds, es⟩ := by
  rw [text, text, List.map_append, List.map_replicate, Numeral.signIn_zero, List.append_assoc]

end Expansion

namespace Specifier

/-- The sign that is left when a blank one is taken for a space. -/
def strippedSign (spec : Specifier) (negative : Bool) : Text :=
  if negative then ['-'] else if spec.sign = .plus then ['+'] else []

theorem exists_signOf (spec : Specifier) (negative : Bool) :
    ∃ n, spec.signOf negative = List.replicate n ' ' ++ spec.strippedSign negative := by
  cases negative with
  | true => exact ⟨0, rfl⟩
  | false =>
      unfold signOf strippedSign
      cases spec.sign with
      | nothing => exact ⟨0, rfl⟩
      | plus => exact ⟨0, rfl⟩
      | blank => exact ⟨1, rfl⟩

theorem ne_space_of_mem_strippedSign {negative : Bool} (hc : c ∈ spec.strippedSign negative) :
    c ≠ ' ' := by
  unfold strippedSign at hc
  split at hc
  · rw [List.mem_singleton.mp hc]
    decide
  · split at hc
    · rw [List.mem_singleton.mp hc]
      decide
    · cases hc

theorem ne_space_of_mem_mark (hc : c ∈ spec.mark) : c ≠ ' ' := by
  have hall : ∀ k : Conversion, ' ' ∉ k.baseMark := by
    intro k
    cases k <;> simp [Conversion.baseMark]
  unfold mark at hc
  split at hc
  · rintro rfl
    exact hall _ hc
  · cases hc

/-- Nothing but the fill and a blank sign is stripped. -/
theorem stripped_filled {y : Expansion} (h : y.Valid base) (hb : base ≤ Numeral.signs)
    (spec : Specifier) (negative upper : Bool) (left right : Nat) :
    Text.stripped ' ' (List.replicate left ' ' ++
      (spec.signOf negative ++ spec.mark ++ y.text upper) ++ List.replicate right ' ') =
        spec.strippedSign negative ++ spec.mark ++ y.text upper := by
  obtain ⟨blank, hblank⟩ := spec.exists_signOf negative
  have hbegins := Expansion.begins_text h upper
  have hne : spec.strippedSign negative ++ spec.mark ++ y.text upper ≠ [] := by
    intro hnil
    rw [(List.append_eq_nil_iff.mp hnil).2] at hbegins
    exact hbegins
  have hspace : ∀ c ∈ spec.strippedSign negative ++ spec.mark ++ y.text upper, c ≠ ' ' := by
    intro c hc
    rcases List.mem_append.mp hc with hc | hc
    · rcases List.mem_append.mp hc with hc | hc
      · exact ne_space_of_mem_strippedSign hc
      · exact ne_space_of_mem_mark hc
    · rcases Expansion.digit_of_mem_text h hc with hdigit | rfl
      · exact hdigit.ne_space hb
      · decide
  -- A blank sign is one more space in front.
  have hspaces : List.replicate left ' ' ++ (spec.signOf negative ++ spec.mark ++ y.text upper) =
      List.replicate (left + blank) ' ' ++
        (spec.strippedSign negative ++ spec.mark ++ y.text upper) := by
    rw [hblank, List.replicate_add]
    simp only [List.append_assoc]
  rw [hspaces, Text.stripped_filled hne hspace]

end Specifier

theorem Conversion.isUpper_of_base?_eq_some {k : Conversion} (h : k.base? = some base) :
    k.isUpper = decide (k = .hexUpper) := by
  cases k with
  | octal => rfl
  | hexLower => rfl
  | hexUpper => rfl
  | binary => rfl
  | _ => cases h

namespace Value

variable {p : Option Nat}

/-- The digits of a whole number, and as many zeros behind the point as the precision says. -/
theorem numberText_int (hk : spec.conversion.base? = some base)
    (hp : spec.precision = p.elim .absent fun p => .given p)
    (hle : ∀ k, p = some k → (k : Int) ≤ Text.longest) (m : Int) :
    (int m).numberText (.int m) spec = .ok (Decimal.signText (m < 0) ++
      Expansion.text spec.conversion.isUpper
        ⟨Numeral.digits base m.natAbs, List.replicate (p.getD 0) 0⟩) := by
  obtain ⟨hb, hsigns, -⟩ := Conversion.base_bounds hk
  obtain ⟨-, hordinal, hscientific⟩ := Conversion.of_base?_eq_some hk
  have hfinite : (Number.int m).isFinite = true := rfl
  have hconvert : (Number.int m).convert spec.conversion (spec.precision ≠ .absent) =
      .ok (Decimal.signText (m < 0) ++
        Expansion.text spec.conversion.isUpper ⟨Numeral.digits base m.natAbs, []⟩) :=
    convert_of_inBase hk (Radix.ofInt_eq hb hsigns m)
  rw [numberText, if_pos hfinite, hconvert, Outcome.ok_bind, Shaped.withDigits, hp]
  cases p with
  | none => rfl
  | some p =>
      have hdigits := Text.withPrecision_text (Expansion.canonical_digits hb m.natAbs).toValid
        hsigns (hle p rfl) (m < 0) spec.conversion.isUpper
      rw [Expansion.truncated_whole] at hdigits
      simp only [Option.elim, Amount.given?, hfinite, hordinal, hscientific, Bool.not_false,
        Bool.and_self, if_true, hdigits]
      rfl

/-- Take a whole number, a specifier for another base whose fill is a space, and a precision or
none. What is laid out is, without the spaces around it, a sign, the mark of the base if the pretty
flag asks for it, at least one digit, and behind a point as many zeros as the precision says. The
digits are those of the base, in upper case for one of the conversions only, and with the sign they
stand for the number. -/
theorem layOut_restored (hk : spec.conversion.base? = some base) (hfill : spec.fill = [' '])
    (hwidth : spec.width = .given w) (hw : (w : Int) ≤ Text.longest)
    (hp : spec.precision = p.elim .absent fun p => .given p)
    (hle : ∀ k, p = some k → (k : Int) ≤ Text.longest) (m : Int) (decorate : Bool) :
    ∃ r ds, (int m).layOut spec decorate = .ok r ∧
      r.plain.stripped ' ' = spec.strippedSign (m < 0) ++ spec.mark ++
        Expansion.text (spec.conversion = .hexUpper) ⟨ds, List.replicate (p.getD 0) 0⟩ ∧
      ds ≠ [] ∧ (∀ d ∈ ds, d < base) ∧
      (if m < 0 then -(Numeral.value base ds : Int) else Numeral.value base ds) = m := by
  obtain ⟨hb, hsigns, -⟩ := Conversion.base_bounds hk
  obtain ⟨hinspection, -, -⟩ := Conversion.of_base?_eq_some hk
  have hvalid := ((Expansion.canonical_digits hb m.natAbs).toValid).truncated hb (p.getD 0)
  rw [Expansion.truncated_whole] at hvalid
  have hsign := Shaped.sign_signText spec hsigns
    (Expansion.begins_text hvalid spec.conversion.isUpper) (m < 0)
  obtain ⟨r, left, zeros, right, hr, hplain⟩ :=
    exists_filled hinspection rfl hfill hwidth hw (numberText_int hk hp hle m)
  have hfilled := hvalid.zeros zeros
  refine ⟨r, List.replicate zeros 0 ++ Numeral.digits base m.natAbs, hr, ?_, hfilled.whole_ne_nil,
    hfilled.whole_lt, ?_⟩
  · rw [hplain, Shaped.front, hsign, Expansion.zeros_text, ← Conversion.isUpper_of_base?_eq_some hk]
    exact Specifier.stripped_filled hfilled hsigns spec (m < 0) spec.conversion.isUpper left right
  · rw [Numeral.value_zeros_append, Numeral.value_digits base hb, ite_neg_natAbs]

/-- A blank sign, zeros up to the width, and zeros behind the point. -/
theorem layOut_restored_hex :
    let spec : Specifier :=
      { sign := .blank, pretty := true, zeroPad := true, width := .given 10, precision := .given 1,
        conversion := .hexUpper }
    (int 255).layOut spec false = .ok (.of " 0x000FF.0".toList) ∧
      ∃ ds, Text.stripped ' ' " 0x000FF.0".toList = "0x".toList ++ Expansion.text true ⟨ds, [0]⟩ ∧
        Numeral.value 16 ds = 255 := by
  intro spec
  have hwidth : spec.width = .given (10 : Nat) := rfl
  have hp : spec.precision = (some 1 : Option Nat).elim .absent fun p => .given p := rfl
  have hle : ∀ k : Nat, some 1 = some k → (k : Int) ≤ Text.longest := by
    intro k hk
    cases hk
    decide
  obtain ⟨r, ds, hr, hstripped, -, -, hvalue⟩ :=
    @layOut_restored 16 10 spec (some 1) rfl rfl hwidth (by decide) hp hle 255 false
  have hplain : (int 255).layOut spec false = .ok (.of " 0x000FF.0".toList) := by decide +kernel
  cases hr.symm.trans hplain
  exact ⟨hplain, ds, hstripped, Int.ofNat.inj hvalue⟩

end Value

end SlotText
