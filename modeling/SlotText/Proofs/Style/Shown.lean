import SlotText.Style.Painted
import SlotText.Style.Strip
import SlotText.Proofs.Numeral.Decimal
import Mathlib.Data.List.DropRight
import Mathlib.Data.List.Forall2

/-!
# What a terminal text shows

Styles are written between control sequences. A terminal text shows another text if it is that text
with such sequences between its characters, and this is what painting a text with any stretches
yields. No sequence contains a line break, so line by line the one text shows the other. Stripping a
line takes out each sequence as a whole and nothing else, provided that the text shown has no
control characters of its own.
-/
namespace SlotText.Text

/-- The control characters, from U+0000 to U+001F and from U+007F to U+009F. -/
def isControl (c : Char) : Bool := c.toNat < 32 || (127 ≤ c.toNat && c.toNat < 160)

/-- No control characters other than line breaks and tabs. -/
def WithoutControls (s : Text) : Prop := ∀ c ∈ s, isControl c = true → c = '\n' ∨ c = '\t'

instance (s : Text) : Decidable s.WithoutControls := List.decidableBAll _ s

/-- The first text is the second one with control sequences for styles between its characters. -/
inductive Shows : Text → Text → Prop
  | nil : Shows [] []
  | char {d s : Text} (c : Char) : Shows d s → Shows (c :: d) (c :: s)
  | codes {d s : Text} (codes : List Nat) : Shows d s → Shows (Style.switchOn codes ++ d) s

variable {d d' s s' : Text}

theorem shows_self (s : Text) : s.Shows s := by
  induction s with
  | nil => exact .nil
  | cons c s ih => exact .char c ih

theorem Shows.append (h : d.Shows s) (h' : d'.Shows s') : (d ++ d').Shows (s ++ s') := by
  induction h with
  | nil => exact h'
  | char c _ ih => exact .char c ih
  | codes codes _ ih =>
      rw [List.append_assoc]
      exact .codes codes ih

theorem shows_flatMap {α : Type} {l : List α} {f g : α → Text} (h : ∀ a ∈ l, (f a).Shows (g a)) :
    Shows (l.flatMap f) (l.flatMap g) := by
  induction l with
  | nil => exact .nil
  | cons a l ih =>
      obtain ⟨hfirst, hrest⟩ := List.forall_mem_cons.mp h
      rw [List.flatMap_cons, List.flatMap_cons]
      exact hfirst.append (ih hrest)

theorem shows_write (style : Style) (piece : Text) : (style.write piece).Shows piece := by
  unfold Style.write
  split
  · exact shows_self piece
  · have hreset : (Style.reset ++ []).Shows [] := .codes [0] .nil
    have hpiece := (shows_self piece).append hreset
    rw [List.append_nil, List.append_nil] at hpiece
    rw [List.append_assoc]
    exact .codes style.codes hpiece

theorem shows_writePiece (stretches : List Stretch) (piece : Nat × Text) :
    (Painted.writePiece stretches piece).Shows piece.2 := by
  unfold Painted.writePiece
  split
  · exact shows_self _
  · exact shows_write _ _

/-- A text is shown whatever stands out in it. -/
theorem shows_highlighted (s : Text) : s.highlighted.Shows s := by
  unfold highlighted Painted.write
  generalize (Highlight.marks s).map _ = stretches
  generalize (fun i => stretches.any _ : Nat → Bool) = cut
  have h : Shows ((Painted.pieces cut 0 s).flatMap (Painted.writePiece stretches))
      ((Painted.pieces cut 0 s).flatMap (·.2)) :=
    shows_flatMap fun piece _ => shows_writePiece stretches piece
  rwa [Painted.flatMap_pieces] at h

theorem exists_mem_of_mem_intercalate {separator : Text} {ss : List Text} {c : Char}
    (h : c ∈ List.intercalate separator ss) : c ∈ separator ∨ ∃ s ∈ ss, c ∈ s := by
  induction ss with
  | nil => cases h
  | cons s rest ih =>
      by_cases hrest : rest = []
      · rw [hrest, List.intercalate_singleton] at h
        exact .inr ⟨s, List.mem_cons_self, h⟩
      · rw [List.intercalate_cons_of_ne_nil hrest] at h
        rcases List.mem_append.mp h with h | h
        · rcases List.mem_append.mp h with h | h
          · exact .inr ⟨s, List.mem_cons_self, h⟩
          · exact .inl h
        · exact (ih h).imp_right fun ⟨s', hs', h⟩ => ⟨s', List.mem_cons_of_mem _ hs', h⟩

theorem forall_mem_intercalate {p : Char → Prop} {separator : Text} {ss : List Text}
    (hseparator : ∀ c ∈ separator, p c) (h : ∀ s ∈ ss, ∀ c ∈ s, p c) :
    ∀ c ∈ List.intercalate separator ss, p c := by
  intro c hc
  rcases exists_mem_of_mem_intercalate hc with hc | ⟨s, hs, hc⟩
  · exact hseparator c hc
  · exact h s hs c hc

/-- Each of the texts, with a separator, adds to the length. -/
theorem le_length_intercalate {k : Nat} (separator : Text) {ss : List Text}
    (h : ∀ s ∈ ss, k ≤ s.length) :
    (k + separator.length) * ss.length ≤
      (List.intercalate separator ss).length + separator.length := by
  induction ss with
  | nil => exact Nat.zero_le _
  | cons s rest ih =>
      obtain ⟨hs, hrest⟩ := List.forall_mem_cons.mp h
      by_cases hnil : rest = []
      · rw [hnil, List.intercalate_singleton, List.length_singleton]
        omega
      · have hlater := ih hrest
        rw [List.intercalate_cons_of_ne_nil hnil, List.length_cons, Nat.mul_succ,
          List.length_append, List.length_append]
        omega

/-- The codes of a sequence are written with digits and semicolons. -/
theorem inRange_of_mem_codes {codes : List Nat} {c : Char}
    (h : c ∈ List.intercalate [';'] (codes.map Numeral.ofNat)) : inRange '0' '?' c = true := by
  rcases exists_mem_of_mem_intercalate h with h | ⟨s, hs, h⟩
  · cases List.mem_singleton.mp h
    decide
  · obtain ⟨n, -, rfl⟩ := List.mem_map.mp hs
    have hdigit := Numeral.isDigit_of_mem_ofNat h
    simp only [Numeral.isDigit, decide_eq_true_eq] at hdigit
    simp only [inRange, Bool.and_eq_true, decide_eq_true_eq]
    exact ⟨hdigit.1, Char.le_trans hdigit.2 (by decide)⟩

theorem not_mem_switchOn {c : Char} (hsign : c ≠ Style.escape ∧ c ≠ '[' ∧ c ≠ 'm')
    (hrange : inRange '0' '?' c = false) (codes : List Nat) : c ∉ Style.switchOn codes := by
  intro h
  simp only [Style.switchOn, List.cons_append, List.mem_cons, List.mem_append, List.not_mem_nil,
    or_false] at h
  rcases h with h | h | h | h
  · exact hsign.1 h
  · exact hsign.2.1 h
  · rw [inRange_of_mem_codes h] at hrange
    cases hrange
  · exact hsign.2.2 h

/-- What follows the escape character of a sequence is taken as the rest of that sequence. -/
theorem sequence?_codes (codes : List Nat) (d : Text) :
    sequence? ('[' :: List.intercalate [';'] (codes.map Numeral.ofNat) ++ ['m'] ++ d) =
      some (.ordinary, d) := by
  have hparameters : ∀ c ∈ List.intercalate [';'] (codes.map Numeral.ofNat),
      inRange '0' '?' c = true := fun c => inRange_of_mem_codes
  have hafter : afterParameters? (List.intercalate [';'] (codes.map Numeral.ofNat) ++ 'm' :: d) =
      some d := by
    rw [afterParameters?, List.dropWhile_append_of_pos hparameters]
    rfl
  simp only [List.cons_append, List.append_assoc, List.nil_append, sequence?, hafter]
  rfl

theorem lines_cons {c : Char} (hc : c ≠ '\n') (s : Text) :
    lines (c :: s) = (lines s).modifyHead (c :: ·) := by
  obtain ⟨line, more, hl⟩ := List.exists_cons_of_ne_nil (lines_ne_nil s)
  rw [lines, if_neg hc, hl]
  rfl

/-- Text without a line break goes to the front of the first line. -/
theorem lines_append {front : Text} (hfront : '\n' ∉ front) (s : Text) :
    lines (front ++ s) = (lines s).modifyHead (front ++ ·) := by
  induction front with
  | nil => exact (congrFun List.modifyHead_id (lines s)).symm
  | cons c front ih =>
      rw [List.mem_cons, not_or] at hfront
      rw [List.cons_append, lines_cons (Ne.symm hfront.1), ih hfront.2, List.modifyHead_modifyHead]
      rfl

theorem lines_eq_singleton {line : Text} (h : '\n' ∉ line) : lines line = [line] := by
  have hlines := lines_append h []
  rw [List.append_nil] at hlines
  exact hlines.trans (congrArg ([·]) (List.append_nil line))

theorem lines_append_break (front s : Text) :
    lines (front ++ '\n' :: s) = lines front ++ lines s := by
  induction front with
  | nil => rfl
  | cons c front ih =>
      obtain ⟨line, more, hl⟩ := List.exists_cons_of_ne_nil (lines_ne_nil front)
      by_cases hc : c = '\n'
      · rw [List.cons_append, lines, if_pos hc, lines, if_pos hc, ih]
        rfl
      · rw [List.cons_append, lines_cons hc, ih, lines_cons hc, hl]
        rfl

/-- The lines of texts put below one another are those of each text in turn. -/
theorem lines_intercalate {ss : List Text} (hne : ss ≠ []) :
    lines (List.intercalate ['\n'] ss) = ss.flatMap lines := by
  induction ss with
  | nil => exact absurd rfl hne
  | cons s rest ih =>
      by_cases hrest : rest = []
      · rw [hrest, List.intercalate_singleton]
        exact (List.append_nil _).symm
      · rw [List.intercalate_cons_of_ne_nil hrest, List.append_assoc, List.singleton_append,
          lines_append_break, ih hrest, List.flatMap_cons]

theorem exists_mem_of_mem_lines {line : Text} {c : Char} (hline : line ∈ lines s) (hc : c ∈ line) :
    c ∈ s := by
  induction s generalizing line with
  | nil =>
      rw [lines, List.mem_singleton] at hline
      exact hline ▸ hc
  | cons x s ih =>
      obtain ⟨first, more, hl⟩ := List.exists_cons_of_ne_nil (lines_ne_nil s)
      by_cases hx : x = '\n'
      · rw [lines, if_pos hx] at hline
        rcases List.mem_cons.mp hline with rfl | hline
        · cases hc
        · exact List.mem_cons_of_mem _ (ih hline hc)
      · rw [lines_cons hx, hl, List.modifyHead_cons] at hline
        rcases List.mem_cons.mp hline with rfl | hline
        · rcases List.mem_cons.mp hc with rfl | hc
          · exact List.mem_cons_self
          · exact List.mem_cons_of_mem _ (ih (hl ▸ List.mem_cons_self) hc)
        · exact List.mem_cons_of_mem _ (ih (hl ▸ List.mem_cons_of_mem _ hline) hc)

/-- A text is shown line by line, since no sequence contains a line break. -/
theorem Shows.lines (h : d.Shows s) : List.Forall₂ Shows (lines d) (lines s) := by
  induction h with
  | nil => exact .cons .nil .nil
  | @char d s c _ ih =>
      by_cases hc : c = '\n'
      · rw [Text.lines, if_pos hc, Text.lines, if_pos hc]
        exact .cons .nil ih
      · rw [lines_cons hc, lines_cons hc]
        revert ih
        cases Text.lines d <;> cases Text.lines s <;> intro ih <;> cases ih
        · exact .nil
        · next hfirst hrest => exact .cons (.char c hfirst) hrest
  | @codes d s codes _ ih =>
      rw [lines_append (not_mem_switchOn (by decide) (by decide) codes)]
      revert ih
      cases Text.lines d <;> cases Text.lines s <;> intro ih <;> cases ih
      · exact .nil
      · next hfirst hrest => exact .cons (.codes codes hfirst) hrest

theorem visible_char {c : Char} (hc : c ≠ Style.escape) (fuel : Nat) (d : Text) :
    visible (fuel + 1) false (c :: d) = c :: visible fuel false d := by
  have hplain : ¬c = '\x1b' := hc
  rw [visible, if_neg hplain]
  rfl

theorem visible_codes (codes : List Nat) (fuel : Nat) (d : Text) :
    visible (fuel + 1) false (Style.switchOn codes ++ d) = visible fuel false d := by
  have hescape : Style.escape = '\x1b' := rfl
  rw [Style.switchOn, List.cons_append, List.cons_append, visible, if_pos hescape, sequence?_codes]

/-- Outside of the sequences stands the text that is shown. -/
theorem Shows.visible (h : d.Shows s) (hs : Style.escape ∉ s) {fuel : Nat}
    (hfuel : d.length ≤ fuel) : visible fuel false d = s := by
  induction h generalizing fuel with
  | nil => cases fuel <;> rfl
  | char c _ ih =>
      rw [List.mem_cons, not_or] at hs
      cases fuel with
      | zero => cases hfuel
      | succ fuel =>
          rw [visible_char (Ne.symm hs.1), ih hs.2 (Nat.le_of_succ_le_succ hfuel)]
  | codes codes _ ih =>
      rw [List.length_append] at hfuel
      have hpos : 0 < (Style.switchOn codes).length := Nat.succ_pos _
      cases fuel with
      | zero => omega
      | succ fuel => rw [visible_codes, ih hs (by omega)]

theorem Shows.not_mem_return (h : d.Shows s) (hs : '\r' ∉ s) : '\r' ∉ d := by
  induction h with
  | nil => exact hs
  | char c _ ih =>
      rw [List.mem_cons, not_or] at hs ⊢
      exact ⟨hs.1, ih hs.2⟩
  | codes codes _ ih =>
      rw [List.mem_append, not_or]
      exact ⟨not_mem_switchOn (by decide) (by decide) codes, ih hs⟩

theorem afterReturn_eq_self (h : '\r' ∉ s) : afterReturn s = s := by
  apply List.rtakeWhile_eq_self_iff.mpr
  intro c hc
  rw [bne_iff_ne]
  rintro rfl
  exact h hc

theorem isControl_of_isMotion {c : Char} (h : isMotion c = true) :
    isControl c = true ∧ ¬(c = '\n' ∨ c = '\t') := by
  simp only [isMotion, Bool.or_eq_true, beq_iff_eq] at h
  rcases h with (((rfl | rfl) | rfl) | rfl) | rfl <;> decide

/-- Stripping leaves a line without control characters as it is shown. -/
theorem Shows.stripLine (h : d.Shows s) (hs : s.WithoutControls) : stripLine d = s := by
  have hnot : ∀ c, isControl c = true ∧ ¬(c = '\n' ∨ c = '\t') → c ∉ s :=
    fun c hc hmem => hc.2 (hs c hmem hc.1)
  have hreturn : '\r' ∉ d := h.not_mem_return (hnot _ (by decide))
  have hvisible := h.visible (hnot _ (by decide)) (Nat.le_refl _)
  simp only [Text.stripLine, afterReturn_eq_self hreturn, hvisible, List.filter_eq_self]
  intro c hc
  rw [Bool.not_eq_true']
  by_contra hmotion
  exact hnot c (isControl_of_isMotion (Bool.not_eq_false _ ▸ hmotion)) hc

theorem map_stripLine {ds ss : List Text} (h : List.Forall₂ Shows ds ss)
    (hs : ∀ s ∈ ss, s.WithoutControls) : ds.map Text.stripLine = ss := by
  induction h with
  | nil => rfl
  | cons hfirst _ ih =>
      obtain ⟨hline, hmore⟩ := List.forall_mem_cons.mp hs
      rw [List.map_cons, hfirst.stripLine hline, ih hmore]

/-- Stripping a terminal text gives the text that it shows. -/
theorem Shows.stripStyles (h : d.Shows s) (hs : s.WithoutControls) : stripStyles d = s := by
  have hlines : ∀ line ∈ Text.lines s, line.WithoutControls :=
    fun line hline c hc => hs c (exists_mem_of_mem_lines hline hc)
  rw [Text.stripStyles, map_stripLine h.lines hlines, intercalate_lines]

end SlotText.Text
