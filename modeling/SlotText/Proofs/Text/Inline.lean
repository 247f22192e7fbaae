import SlotText.Proofs.Style.Shown
import SlotText.Value.Text

/-!
# Texts that stand on one line

A text stands on one line, whatever is put before and behind it, if there are no control characters
in it and no separators of lines and paragraphs. All characters that a quoted text shows as they are
can stand there, and the escapes for the others are letters and digits. So quoting puts every text
on one line, and the escapes for bytes do the same. Numerals stand on one line with their signs,
points and powers.
-/
namespace SlotText

namespace Text

/-- The character is no control character, and it does not separate lines or paragraphs. -/
def isInline (c : Char) : Bool := !(isControl c || c == '\u2028' || c == '\u2029')

def Inline (s : Text) : Prop := ∀ c ∈ s, isInline c = true

instance (s : Text) : Decidable s.Inline := List.decidableBAll _ s

variable {s t : Text} {c : Char}

@[simp]
theorem inline_nil : Inline [] := fun _ h => absurd h List.not_mem_nil

@[simp]
theorem inline_cons : Inline (c :: s) ↔ isInline c = true ∧ s.Inline := List.forall_mem_cons

@[simp]
theorem inline_append : (s ++ t).Inline ↔ s.Inline ∧ t.Inline := List.forall_mem_append

theorem Inline.append (hs : s.Inline) (ht : t.Inline) : (s ++ t).Inline :=
  inline_append.mpr ⟨hs, ht⟩

theorem Inline.sublist (h : t.Inline) (hs : s.Sublist t) : s.Inline :=
  fun c hc => h c (hs.subset hc)

/-- A fixed text is looked at as the list of characters that it is written with. -/
theorem inline_literal (l : List Char) (h : l.all isInline = true) :
    Inline (String.ofList l).toList := by
  rw [String.toList_ofList]
  exact List.all_eq_true.mp h

theorem literal_ne_nil (c : Char) (l : List Char) : (String.ofList (c :: l)).toList ≠ [] := by
  rw [String.toList_ofList]
  exact List.cons_ne_nil c l

theorem inline_replicate (n : Nat) (hc : isInline c = true) : Inline (List.replicate n c) := by
  intro c' hc'
  rw [(List.mem_replicate.mp hc').2]
  exact hc

theorem inline_intercalate {separator : Text} {ss : List Text} (hseparator : separator.Inline)
    (h : ∀ s ∈ ss, s.Inline) : Inline (List.intercalate separator ss) :=
  forall_mem_intercalate hseparator h

theorem isInline_iff :
    isInline c = true ↔ isControl c = false ∧ c ≠ '\u2028' ∧ c ≠ '\u2029' := by
  simp only [isInline, Bool.not_eq_true', Bool.or_eq_false_iff, beq_eq_false_iff_ne, and_assoc]

theorem isInline_of_isPrintable (h : isPrintable c = true) : isInline c = true := by
  have hbounds := not_control_of_isPrintable h
  have hseparators : isPrintable '\u2028' = false ∧ isPrintable '\u2029' = false := by
    decide +kernel
  obtain ⟨hline, hparagraph⟩ := hseparators
  refine isInline_iff.mpr ⟨?_, ?_, ?_⟩
  · simp only [isControl, Bool.or_eq_false_iff, Bool.and_eq_false_iff, decide_eq_false_iff_not]
    omega
  · rintro rfl
    rw [hline] at h
    cases h
  · rintro rfl
    rw [hparagraph] at h
    cases h

theorem isInline_of_ascii (h : 32 ≤ c.toNat) (h' : c.toNat ≤ 126) : isInline c = true := by
  refine isInline_of_isPrintable ?_
  rw [isPrintable, printableRanges, inRanges, if_neg (by omega), decide_eq_true h', Bool.true_or]

end Text

open Text (Inline isInline inline_nil inline_cons inline_append)

namespace Numeral

theorem isInline_sign {d : Nat} (h : d < signs) : isInline (sign d) = true := by
  have hall : ∀ d < signs, isInline (sign d) = true := by decide +kernel
  exact hall d h

theorem inline_digits {base : Nat} (hb : 2 ≤ base) (hs : base ≤ signs) (n : Nat) :
    Inline ((digits base n).map sign) := by
  intro c hc
  obtain ⟨d, hd, rfl⟩ := List.mem_map.mp hc
  exact isInline_sign (Nat.lt_of_lt_of_le (lt_of_mem_digits hb hd) hs)

@[simp]
theorem inline_ofNat (n : Nat) : Inline (ofNat n) := inline_digits (by decide) (by decide) n

@[simp]
theorem inline_ofInt (n : Int) : Inline (ofInt n) := by
  cases n with
  | ofNat n => exact inline_ofNat n
  | negSucc n => exact inline_cons.mpr ⟨rfl, inline_ofNat _⟩

end Numeral

namespace Decimal

variable {ds : Text}

@[simp]
theorem inline_signText (negative : Bool) : Inline (signText negative) := by
  cases negative <;> decide

theorem inline_placePoint (h : Inline ds) (place : Int) : Inline (placePoint ds place) := by
  have hzeros : ∀ n, Inline (List.replicate n '0') := fun n => Text.inline_replicate n rfl
  unfold placePoint
  split
  · simp +decide [h, hzeros]
  · split
    · simp [h, hzeros]
    · simp +decide [h.sublist (List.take_sublist _ _), h.sublist (List.drop_sublist _ _)]

theorem isInline_exponentSign (e : Int) : isInline (if e < 0 then '-' else '+') = true := by
  split <;> rfl

theorem inline_placeExponent {marker : Char} (hmarker : isInline marker = true)
    (h : Inline ds) (e : Int) : Inline (placeExponent marker ds e) := by
  refine (inline_placePoint h 1).append (inline_cons.mpr ⟨hmarker, ?_⟩)
  exact inline_cons.mpr ⟨isInline_exponentSign e, Numeral.inline_ofNat _⟩

@[simp]
theorem inline_text (d : Decimal) : Inline d.text := by
  cases d with
  | finite negative c e =>
      simp only [text, inline_append, inline_signText, true_and]
      split
      · exact inline_placePoint (Numeral.inline_ofNat c) _
      · exact inline_placeExponent rfl (Numeral.inline_ofNat c) _
  | infinite negative => exact (inline_signText _).append (by decide +kernel)
  | nan negative signaling payload =>
      simp only [text, inline_append, inline_signText, true_and]
      constructor
      · split <;> decide +kernel
      · split
        · exact inline_nil
        · exact Numeral.inline_ofNat payload

end Decimal

theorem Binary64.inline_exponentText (e : Int) : Inline (exponentText e) := by
  refine inline_cons.mpr ⟨Decimal.isInline_exponentSign e, ?_⟩
  exact (Text.inline_replicate _ rfl).append (Numeral.inline_ofNat _)

@[simp]
theorem Binary64.inline_written (x : Binary64) (marked : Bool) : Inline (x.written marked) := by
  have hplaced := Decimal.inline_placePoint (Numeral.inline_ofNat x.shortest.1)
  unfold written
  split
  · decide +kernel
  · split
    · exact (Decimal.inline_signText _).append (by decide +kernel)
    · simp only [inline_append, Decimal.inline_signText, true_and]
      split
      · refine (hplaced _).append ?_
        split <;> decide
      · exact (hplaced 1).append (inline_cons.mpr ⟨rfl, inline_exponentText _⟩)

namespace Text

variable {quote : Char}

theorem inline_hex (width n : Nat) : Inline (hex width n) :=
  (inline_replicate _ rfl).append (Numeral.inline_digits (by decide) (by decide) n)

theorem inline_numbered (c : Char) : Inline (numbered c) := by
  unfold numbered
  split
  · simp +decide [inline_hex]
  · split
    · simp +decide [inline_hex]
    · simp +decide [inline_hex]

theorem isInline_quoteFor (s : Text) : isInline (quoteFor s) = true := by
  unfold quoteFor
  split <;> rfl

theorem isInline_of_shortEscape? {e : Char} (hquote : isInline quote = true)
    (h : shortEscape? quote c = some e) : isInline e = true := by
  unfold shortEscape? at h
  split at h
  · next hc =>
      cases h
      rcases hc with rfl | rfl
      · exact hquote
      · rfl
  · split at h
    · cases h; rfl
    · split at h
      · cases h; rfl
      · split at h
        · cases h; rfl
        · cases h

theorem inline_escape {e : Char} (hquote : isInline quote = true)
    (h : shortEscape? quote c = some e) : Inline ['\\', e] := by
  simp +decide [isInline_of_shortEscape? hquote h]

/-- A character is quoted as it is only if it is printable. -/
theorem inline_escaped (hquote : isInline quote = true) (c : Char) : Inline (escaped quote c) := by
  unfold escaped
  split
  · next h => exact inline_escape hquote h
  · split
    · next h => exact inline_cons.mpr ⟨isInline_of_isPrintable h, inline_nil⟩
    · exact inline_numbered c

theorem inline_flatMap {α : Type} {l : List α} {f : α → Text} (h : ∀ a ∈ l, (f a).Inline) :
    Inline (l.flatMap f) := by
  intro c hc
  obtain ⟨a, ha, hc⟩ := List.mem_flatMap.mp hc
  exact h a ha c hc

@[simp]
theorem inline_quoted (s : Text) : Inline (quoted s) := by
  have hquote := isInline_quoteFor s
  have hescaped := inline_flatMap (l := s) fun c _ => inline_escaped hquote c
  simp [quoted, hquote, hescaped]

@[simp]
theorem inline_quotedBytes (bs : List UInt8) : Inline (quotedBytes bs) := by
  unfold quotedBytes
  dsimp only
  generalize bs.map (fun b => Char.ofNat b.toNat) = s
  have hquote := isInline_quoteFor s
  simp only [inline_append, inline_cons, hquote, inline_nil, and_true, true_and]
  refine ⟨rfl, inline_flatMap fun c _ => ?_⟩
  split
  · next h => exact inline_escape hquote h
  · split
    · next h => exact inline_cons.mpr ⟨isInline_of_ascii h.1 (by omega), inline_nil⟩
    · exact inline_numbered c

end Text

end SlotText
