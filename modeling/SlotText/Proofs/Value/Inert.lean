import SlotText.Proofs.Value.Padded

/-!
# Parts of a specifier without effect

No value has a use for all parts of a specifier. A dump takes neither a sign nor zeros nor a
precision. A value that is no number takes its place and nothing else, and its text is the natural
one. An ordinal has no digits behind a point and none to fill up, and its base needs no mark. A
number that is not finite has its natural text under every conversion; only the mark of a base,
which the pretty flag asks for, still goes between its sign and the rest.
-/
namespace SlotText

/-- A value gets the same place from both: they agree on the width and on how it is filled. -/
structure Specifier.SameFrame (spec spec' : Specifier) : Prop where
  fill : spec'.fill = spec.fill
  alignment : spec'.alignment = spec.alignment
  width : spec'.width = spec.width

/-- Both specifiers ask the same of the value, since they differ in nothing that it has a use
for. -/
inductive Specifier.Alike (v : Value) (spec : Specifier) : Specifier → Prop
  | inspection (sign : SignPolicy) (zeroPad : Bool) (precision : Amount) :
      spec.conversion = .inspection → Alike v spec { spec with sign, zeroPad, precision }
  | natural {spec' : Specifier} : v.number? = none → spec.conversion ≠ .inspection →
      spec'.conversion ≠ .inspection → spec.SameFrame spec' → Alike v spec spec'
  | ordinal {n : Number} (pretty zeroPad : Bool) (precision : Amount) : v.number? = some n →
      n.isFinite = true → spec.conversion.isOrdinal = true →
      Alike v spec { spec with pretty, zeroPad, precision }

/-- A text of a number under a sign policy. A minus stays in front, and the mark follows the
sign. -/
def SignPolicy.signed (p : SignPolicy) (mark s : Text) : Text :=
  match s with
  | '-' :: s => '-' :: (mark ++ s)
  | s => p.text ++ (mark ++ s)

variable {v : Value} {n : Number} {spec spec' : Specifier} {decorate : Bool}

theorem Specifier.SameFrame.targetWidth (h : spec.SameFrame spec') :
    spec'.targetWidth = spec.targetWidth := by
  rw [Specifier.targetWidth, h.width]
  rfl

theorem Specifier.SameFrame.align (h : spec.SameFrame spec') (r : Rendered) :
    r.align spec'.targetWidth spec'.alignment spec'.fill =
      r.align spec.targetWidth spec.alignment spec.fill := by
  rw [h.targetWidth, h.alignment, h.fill]

theorem Specifier.mark_of_not_radix (h : (spec.pretty && spec.conversion.isRadix) = false) :
    spec.mark = [] := by
  unfold mark
  split
  · next hpretty =>
      rw [hpretty, Bool.true_and] at h
      cases hk : spec.conversion with
      | octal | hexLower | hexUpper | binary => rw [hk] at h; cases h
      | _ => rfl
  · rfl

namespace Shaped

theorem front_append_sign (spec : Specifier) (s : Text) :
    front spec s ++ (sign spec s).2 = spec.sign.signed spec.mark s := by
  by_cases hminus : ∃ t, s = '-' :: t
  · obtain ⟨t, rfl⟩ := hminus
    rfl
  · have hsign : sign spec s = (spec.sign.text, s) := by
      unfold sign
      split
      · exact absurd ⟨_, rfl⟩ hminus
      · rfl
    have hsigned : spec.sign.signed spec.mark s = spec.sign.text ++ (spec.mark ++ s) := by
      unfold SignPolicy.signed
      split
      · exact absurd ⟨_, rfl⟩ hminus
      · rfl
    rw [front, hsign, hsigned]
    exact List.append_assoc _ _ _

theorem withDigits_of_none {finite : Bool} (h : (finite && !spec.conversion.isOrdinal) = false)
    (s : Text) : withDigits spec finite s = .ok s := by
  unfold withDigits
  rw [h]
  split
  · rfl
  · rfl

end Shaped

namespace Value

/-- Ordinals, and numbers that are not finite, get a sign and a mark, and are aligned. -/
theorem layOut_of_no_digits (hk : spec.conversion ≠ .inspection) (hn : v.number? = some n)
    (h : (n.isFinite && !spec.conversion.isOrdinal) = false) :
    v.layOut spec decorate =
      ((if n.isFinite then n.convert spec.conversion (spec.precision ≠ .absent) else v.plain) >>=
        fun s => (Rendered.of (spec.sign.signed spec.mark s)).align spec.targetWidth spec.alignment
          spec.fill) := by
  have haligned : (spec.zeroPad && (n.isFinite && !spec.conversion.isOrdinal)) = false := by
    rw [h, Bool.and_false]
  rw [layOut_of_number?_eq_some spec hk hn, numberText, bind_assoc]
  refine Outcome.bind_congr fun s => ?_
  rw [Shaped.withDigits_of_none h, Outcome.ok_bind, Shaped.withFront_of_aligned spec haligned,
    Outcome.ok_bind, Shaped.front_append_sign]
  rfl

theorem exists_plain_of_number? (hn : v.number? = some n) (hfinite : n.isFinite = false) :
    ∃ s, v.plain = .ok s := by
  cases eq_toValue_of_number? hn
  cases n with
  | int n => cases hfinite
  | float x => exact ⟨x.text, rfl⟩
  | decimal d => exact ⟨d.text, rfl⟩

/-- The conversion, the flags and the precision add nothing but the mark. -/
theorem layOut_of_infinite_or_nan (hn : v.number? = some n) (hfinite : n.isFinite = false)
    {s : Text} (hs : v.plain = .ok s) (hk : spec.conversion ≠ .inspection) :
    v.layOut spec decorate = (Rendered.of (spec.sign.signed spec.mark s)).align spec.targetWidth
      spec.alignment spec.fill := by
  have hdigits : (n.isFinite && !spec.conversion.isOrdinal) = false := by
    rw [hfinite, Bool.false_and]
  rw [layOut_of_no_digits hk hn hdigits, hfinite, if_neg Bool.false_ne_true, hs, Outcome.ok_bind]

/-- A number that is not finite is its natural text under the sign policy, aligned, with the mark
of a base where the pretty flag meets a conversion to one. Nothing else makes a difference:
specifiers that agree on the sign, the fill, the alignment and the width lay the number out alike
if they have the same mark, and so if the flag or the base is missing in both. -/
theorem layOut_not_finite (hn : v.number? = some n) (hfinite : n.isFinite = false) :
    ∃ s, v.plain = .ok s ∧ ∀ (spec : Specifier) (decorate : Bool), spec.conversion ≠ .inspection →
      v.layOut spec decorate = (Rendered.of (spec.sign.signed spec.mark s)).align
        spec.targetWidth spec.alignment spec.fill ∧
      ((spec.pretty && spec.conversion.isRadix) = false → spec.mark = []) ∧
      ∀ spec' : Specifier, spec'.conversion ≠ .inspection → spec.SameFrame spec' →
        spec'.sign = spec.sign → spec'.mark = spec.mark →
        v.layOut spec' decorate = v.layOut spec decorate := by
  obtain ⟨s, hs⟩ := exists_plain_of_number? hn hfinite
  refine ⟨s, hs, ?_⟩
  intro spec decorate hk
  refine ⟨layOut_of_infinite_or_nan hn hfinite hs hk, Specifier.mark_of_not_radix, ?_⟩
  intro spec' hk' hframe hsign hmark
  rw [layOut_of_infinite_or_nan hn hfinite hs hk', hframe.align, hsign, hmark,
    layOut_of_infinite_or_nan hn hfinite hs hk]

/-- The payload of a number that is none stands behind the sign. Zeros, digits behind a point and a
suffix are asked for in vain. -/
theorem layOut_not_finite_payload :
    let spec : Specifier :=
      { fill := ['*'], alignment := .center, sign := .plus, width := .given 9 }
    let v : Value := .decimal (.nan false true 7)
    v.number? = some (.decimal (.nan false true 7)) ∧
      Number.isFinite (.decimal (.nan false true 7)) = false ∧
      v.layOut { spec with zeroPad := true, precision := .given 2, conversion := .ordinalUpper }
        false = v.layOut spec false ∧
      v.layOut spec false = .ok (.of "*+sNaN7**".toList) := by
  intro spec v
  obtain ⟨s, -, hlayout⟩ := layOut_not_finite (v := v) rfl rfl
  obtain ⟨-, -, hsame⟩ := hlayout spec false (by decide)
  exact ⟨rfl, rfl, hsame _ (by decide) ⟨rfl, rfl, rfl⟩ rfl rfl, by decide +kernel⟩

/-- The mark of a base stands in front of an infinity, which has no digits in any base. -/
theorem layOut_marked_infinity :
    let v : Value := .float ⟨9218868437227405312⟩
    v.number? = some (.float ⟨9218868437227405312⟩) ∧
      Number.isFinite (.float ⟨9218868437227405312⟩) = false ∧ v.plain = .ok "inf".toList ∧
      v.layOut { conversion := .hexLower } false = .ok (.of "inf".toList) ∧
      v.layOut { pretty := true, conversion := .hexLower } false = .ok (.of "0xinf".toList) := by
  decide +kernel

theorem layOut_ordinal (hk : spec.conversion.isOrdinal = true) (hn : v.number? = some n)
    (hfinite : n.isFinite = true) :
    v.layOut spec decorate = (Numeral.ordinal n.nearestInt spec.conversion.isUpper >>= fun s =>
      (Rendered.of (spec.sign.signed [] s)).align spec.targetWidth spec.alignment spec.fill) := by
  obtain ⟨hbase, hscientific⟩ := Conversion.base?_of_isOrdinal hk
  have hne : spec.conversion ≠ .inspection := by
    intro h
    rw [h] at hk
    cases hk
  have hdigits : (n.isFinite && !spec.conversion.isOrdinal) = false := by
    rw [hk, Bool.not_true, Bool.and_false]
  have hmark : spec.mark = [] := by
    apply Specifier.mark_of_not_radix
    rw [Conversion.isRadix, hbase, Option.isSome_none, Bool.and_false]
  have hconvert : ∀ fixed, n.convert spec.conversion fixed =
      Numeral.ordinal n.nearestInt spec.conversion.isUpper := by
    intro fixed
    simp only [Number.convert, hbase, hscientific, hk, Bool.false_eq_true, if_false, if_true]
  rw [layOut_of_no_digits hne hn hdigits, hfinite, if_pos rfl, hconvert, hmark]

/-- Two specifiers that ask the same of a value lay it out alike, in both forms, or fail alike. A
value that is no number is its natural text, aligned. -/
theorem layOut_alike (h : spec.Alike v spec') (decorate : Bool) :
    v.layOut spec' decorate = v.layOut spec decorate ∧
    (v.number? = .none → spec.conversion ≠ .inspection →
      v.layOut spec decorate = (v.plain >>= fun s =>
        (Rendered.of s).align spec.targetWidth spec.alignment spec.fill)) := by
  refine ⟨?_, fun hv hk => layOut_of_number?_eq_none spec hk hv⟩
  cases h with
  | inspection sign zeroPad precision hk =>
      have hk' : Specifier.conversion { spec with sign, zeroPad, precision } = .inspection := hk
      rw [layOut_inspection _ hk, layOut_inspection _ hk']
      rfl
  | natural hv hk hk' hframe =>
      rw [layOut_of_number?_eq_none _ hk hv, layOut_of_number?_eq_none _ hk' hv]
      exact Outcome.bind_congr fun s => hframe.align _
  | ordinal pretty zeroPad precision hn hfinite hk =>
      have hk' : Conversion.isOrdinal
          (Specifier.conversion { spec with pretty, zeroPad, precision }) = true := hk
      rw [layOut_ordinal hk hn hfinite, layOut_ordinal hk' hn hfinite]
      rfl

/-- An ordinal that is rounded away from zero, with and without flags that have no effect on it. -/
theorem layOut_alike_ordinal :
    let spec : Specifier :=
      { fill := ['.'], alignment := .left, width := .given 8, conversion := .ordinalUpper }
    let v : Value := .decimal (.finite true 15 (-1))
    spec.Alike v { spec with pretty := true, zeroPad := true, precision := .given 3 } ∧
      v.layOut { spec with pretty := true, zeroPad := true, precision := .given 3 } true =
        .ok (.of "-2ND....".toList) := by
  intro spec v
  have halike : spec.Alike v { spec with pretty := true, zeroPad := true, precision := .given 3 } :=
    .ordinal true true (.given 3) rfl rfl rfl
  refine ⟨halike, ?_⟩
  rw [(layOut_alike halike true).1]
  rfl

end Value

end SlotText
