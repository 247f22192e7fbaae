import SlotText.Proofs.Specifier.Extended
import SlotText.Proofs.Specifier.Written

/-!
# Amounts written inline

An amount that is deferred to a slot can be written into the specifier instead: the digits stand
where the literal in front of the slot ends, and the literal behind the slot goes on behind them.
The specifier keeps its meaning, apart from the amount. There is one exception. The numeral of zero
is read as the zero flag where a width is due and the flag is not there yet. This leaves the width
zero, too, but the flag is set.
-/
namespace SlotText

namespace Text

/-- The text, with a semicolon if it is empty. Behind a zero flag the end of the literal would
defer the width. -/
def terminated (s : Text) : Text := if s = [] then [';'] else s

/-- Two literals and the number from the slot between them, as one literal. -/
def inlined (before : Text) (n : Nat) (after : Text) : Text :=
  before ++ (Numeral.ofNat n ++ after.terminated)

theorem terminated_ne_nil (s : Text) : s.terminated ≠ [] := by
  unfold terminated
  split
  · exact List.cons_ne_nil _ _
  · assumption

theorem Begins.exists_mem {p : Char → Prop} {s : Text} (h : s.Begins p) : ∃ c ∈ s, p c := by
  cases s with
  | nil => cases h
  | cons c s => exact ⟨c, List.mem_cons_self, h⟩

end Text

namespace Grammar

variable {g : Parts} {spec : Specifier} {a b : Ahead} {m : Amount}
variable {literals following : List Text}
variable {literal before after part ds rest r s tail conversion close : Text} {k : Conversion}
variable {n : Nat}

/-- The characters that can stand behind the digits of an amount. -/
def Follows (c : Char) : Prop := c = '.' ∨ IsLetter c ∨ Text.isBlank c = true ∨ c = ';'

theorem not_isBlank_of_digit {c : Char} (h : IsDigit c) : Text.isBlank c ≠ true := by
  intro hb
  have hbounds : 48 ≤ c.toNat ∧ c.toNat ≤ 57 := by
    simp only [IsDigit, Numeral.isDigit, decide_eq_true_eq, Char.le_def,
      UInt32.le_iff_toNat_le] at h
    exact h
  have hranges : ∀ range ∈ Text.blankRanges, range.2 < 48 ∨ 57 < range.1 := by decide
  obtain ⟨range, hrange, hlow, hhigh⟩ := Text.exists_range_of_inRanges hb
  rcases hranges range hrange with hr | hr <;> omega

theorem Follows.not_digit {c : Char} (h : Follows c) : ¬IsDigit c := by
  intro hd
  rcases h with rfl | h | h | rfl
  · cases hd
  · have hplace := (place_digit_bounds hd).2
    rw [place_letter h] at hplace
    omega
  · exact not_isBlank_of_digit hd h
  · cases hd

theorem Follows.not_alignment {c : Char} (h : Follows c) : ¬IsAlignment c := by
  intro ha
  rcases h with rfl | h | h | rfl
  · cases place_alignment ha
  · have hplace := place_alignment ha
    rw [place_letter h] at hplace
    cases hplace
  · obtain ⟨sign, rfl⟩ := ha
    cases sign <;> cases h
  · cases place_alignment ha

/-- Behind the precision stand the conversion, what closes the specifier, and the tail. -/
structure Ending (conversion close : Text) (k : Conversion) (tail s : Text) : Prop where
  text : s = conversion ++ (close ++ tail)
  lettered : Lettered conversion k (close ++ tail)
  closed : Closed close tail

theorem Ending.not_begins {p : Char → Prop} (h : Ending conversion close k tail s)
    (hp : ∀ c, Follows c → ¬p c) : ¬s.Begins p := by
  obtain ⟨rfl, lettered, closed⟩ := h
  cases lettered with
  | letter rest hk =>
      obtain ⟨c, hc, -⟩ := Conversion.ofSymbol?_symbol hk
      rw [hc]
      exact hp c (.inr (.inl ⟨k, hc⟩))
  | absent hn =>
      cases closed with
      | finish => exact id
      | blank rest hb => exact hp _ (.inr (.inr (.inl hb)))
      | semicolon tail => exact hp _ (.inr (.inr (.inr rfl)))

theorem Pointed.not_begins {p : Char → Prop} (h : Pointed ⟨s, literals⟩ part m b)
    (hend : Ending conversion close k tail b.text) (hp : ∀ c, Follows c → ¬p c) :
    ¬s.Begins p := by
  cases h with
  | absent _ => exact hend.not_begins hp
  | point _ => exact hp _ (.inl rfl)

theorem Lettered.eq_natural (h : Lettered [] k rest) : k = .natural := by
  generalize hp : ([] : Text) = part at h
  cases h with
  | letter rest hk =>
      obtain ⟨c, hc, -⟩ := Conversion.ofSymbol?_symbol hk
      rw [hc] at hp
      cases hp
  | absent hn => rfl

theorem Ending.terminated (h : Ending conversion close k tail s) :
    ∃ close', Ending conversion close' k tail s.terminated := by
  by_cases hs : s = []
  · obtain ⟨htext, lettered, -⟩ := h
    subst hs
    obtain ⟨rfl, hrest⟩ := List.append_eq_nil_iff.mp htext.symm
    obtain ⟨-, rfl⟩ := List.append_eq_nil_iff.mp hrest
    refine ⟨[';'], rfl, ?_, .semicolon []⟩
    rw [lettered.eq_natural]
    exact .absent ((later_close 6 (Nat.le_refl 6) []).not_begins fun c hc =>
      Nat.le_of_eq (place_letter hc))
  · rw [Text.terminated, if_neg hs]
    exact ⟨close, h⟩

/-- A precision that follows a deferred width also follows the digits of a width. -/
theorem Pointed.terminated (h : Pointed ⟨s, literals⟩ part m b) (hleft : b.literals = [])
    (hend : Ending conversion close k tail b.text) :
    ∃ close' b', Pointed ⟨s.terminated, literals⟩ part m b' ∧ b'.literals = [] ∧
      Ending conversion close' k tail b'.text := by
  by_cases hs : s = []
  · subst hs
    cases h with
    | absent _ =>
        obtain ⟨close', hclose⟩ := hend.terminated
        have hpoint : ¬Text.Begins (· = '.') (Text.terminated []) := by decide
        exact ⟨close', ⟨Text.terminated [], literals⟩, .absent hpoint, hleft, hclose⟩
  · rw [Text.terminated, if_neg hs]
    exact ⟨close, b, h, hleft, hend⟩

theorem not_begins_ofNat {p : Char → Prop} (hp : ∀ c, IsDigit c → ¬p c) (n : Nat) (s : Text) :
    ¬Text.Begins p (Numeral.ofNat n ++ s) := by
  apply Text.not_begins_append
  · intro h
    obtain ⟨c, hc, hpc⟩ := h.exists_mem
    exact hp c (Numeral.isDigit_of_mem_ofNat hc) hpc
  · intro hnil
    exact absurd hnil (Numeral.ofNat_ne_nil n)

theorem not_begins_zero_ofNat (hn : n ≠ 0) (s : Text) :
    ¬Text.Begins (· = '0') (Numeral.ofNat n ++ s) := by
  apply Text.not_begins_append
  · intro h
    obtain ⟨ds, hds⟩ := Text.begins_eq_iff.mp h
    exact Numeral.head?_ofNat_ne_zero hn (by rw [hds]; rfl)
  · intro hnil
    exact absurd hnil (Numeral.ofNat_ne_nil n)

theorem not_alignment_of_digit {c : Char} (h : IsDigit c) : ¬IsAlignment c := by
  intro ha
  have hplace := (place_digit_bounds h).1
  rw [place_alignment ha] at hplace
  omega

theorem not_begins_colon_inlined (h : ¬rest.Begins (· = ':')) (n : Nat) (after : Text) :
    ¬Text.Begins (· = ':') (rest.inlined n after) := by
  apply Text.not_begins_append h
  intro hnil
  apply not_begins_ofNat
  intro c hc hcolon
  subst hcolon
  cases hc

theorem fresh_ofNat (n : Nat) (hs : ¬s.Begins IsAlignment) : Fresh (Numeral.ofNat n ++ s) := by
  refine ⟨?_, ?_, ?_⟩
  · apply not_begins_ofNat
    intro c hc hsign
    rw [IsDigit] at hc
    rcases hsign with rfl | rfl <;> cases hc
  · apply not_begins_ofNat
    intro c hc hpretty
    subst hpretty
    cases hc
  · apply Text.not_begins_tail_append
    · intro h
      obtain ⟨c, hc, ha⟩ := h.exists_mem
      exact not_alignment_of_digit (Numeral.isDigit_of_mem_ofNat (List.mem_of_mem_tail hc)) ha
    · exact hs
    · intro hnil
      exact absurd hnil (Numeral.ofNat_ne_nil n)

theorem Measured.of_deferred (h : Measured ⟨r, literals⟩ ds .deferred b) :
    r = [] ∧ ds = [] ∧ literals = b.text :: b.literals := by
  cases h with
  | deferred _ _ => exact ⟨rfl, rfl, rfl⟩

theorem Pointed.of_deferred (h : Pointed ⟨s, literals⟩ part .deferred b) :
    s = ['.'] ∧ part = ['.'] ∧ literals = b.text :: b.literals := by
  cases h with
  | point hm =>
      obtain ⟨rfl, rfl, hliterals⟩ := hm.of_deferred
      exact ⟨rfl, rfl, hliterals⟩

/-- Where an amount is not deferred, it ends before the literals behind it are reached. -/
theorem Measured.append_of_ne (h : Measured ⟨r, literals⟩ ds m b) (hm : m ≠ .deferred)
    (hne : b.text ≠ []) (s : Text) (following : List Text) :
    b.literals = literals ∧ Measured ⟨r ++ s, following⟩ ds m ⟨b.text ++ s, following⟩ := by
  cases h with
  | digits hds hall hrest =>
      refine ⟨rfl, ?_⟩
      rw [List.append_assoc]
      exact .digits hds hall (Text.not_begins_append hrest fun hnil => absurd hnil hne)
  | zero hc => exact ⟨rfl, .zero hc⟩
  | deferred _ _ => exact absurd rfl hm

theorem measured_nothing (hne : s ≠ []) (hs : ¬s.Begins IsDigit) :
    Measured ⟨s, following⟩ [] (.given 0) ⟨s, following⟩ := by
  cases s with
  | nil => exact absurd rfl hne
  | cons c s => exact .zero hs

/-- The digits of a deferred width follow the flags. -/
theorem Specified.inline_width (h : Specified literal (after :: following) g spec tail [])
    (hw : spec.width = .deferred) (n : Nat) :
    ∃ g' z, (n ≠ 0 → z = spec.zeroPad) ∧
      g'.width.length ≤ (Numeral.ofNat n).length ∧ g'.precision = g.precision ∧
      Specified (literal.inlined n after) following g'
        { spec with zeroPad := z, width := .given n } tail [] := by
  obtain ⟨opening, aligned, signed, pretty, zeroPad, width, precision, ending, hleft, lettered,
    closed⟩ := h
  rename_i r a b
  obtain ⟨text, literals⟩ := a
  rw [hw] at width
  obtain ⟨rfl, -, hliterals⟩ := width.of_deferred
  obtain ⟨rfl, rfl⟩ := List.cons.inj hliterals
  obtain ⟨close, b', hpointed, hleft', hending⟩ :=
    precision.terminated hleft ⟨ending, lettered, closed⟩
  have hdigit := hpointed.not_begins hending fun c => Follows.not_digit
  have halignment := hpointed.not_begins hending fun c => Follows.not_alignment
  have hopened : Opened g spec ((g.zeroPad ++ []) ++ (Numeral.ofNat n ++ after.terminated)) :=
    Opened.append ⟨aligned, signed, pretty⟩
      (not_begins_ofNat (fun c => not_alignment_of_digit) n _) fun _ => fresh_ofNat n halignment
  rw [List.append_nil] at opening hopened
  by_cases hzero : n = 0 ∧ g.zeroPad = []
  · obtain ⟨rfl, hz⟩ := hzero
    rw [hz] at hopened
    refine ⟨{ g with zeroPad := ['0'], width := [], close }, true, fun hn => absurd rfl hn,
      Nat.zero_le _, rfl, ?_⟩
    refine .intro ?_ hopened.aligned hopened.signed hopened.pretty (.present _)
      (measured_nothing after.terminated_ne_nil hdigit) hpointed hending.text hleft'
      hending.lettered hending.closed
    have hdigits : Numeral.ofNat 0 = ['0'] := by decide
    rw [Text.inlined, opening, Parts.flags, Parts.flags, hz, hdigits]
    simp
  · refine ⟨{ g with width := Numeral.ofNat n, close }, spec.zeroPad, fun _ => rfl,
      Nat.le_refl _, rfl, ?_⟩
    refine .intro ?_ hopened.aligned hopened.signed hopened.pretty
      (zeroPad.append ?_) (measured_ofNat hdigit) hpointed hending.text hleft' hending.lettered
      hending.closed
    · rw [Text.inlined, opening]
      rfl
    · intro hz _
      exact not_begins_zero_ofNat (fun hn => hzero ⟨hn, hz⟩) _

/-- The digits of a deferred precision follow its point. -/
theorem Pointed.inline (h : Pointed ⟨s, after :: literals⟩ part .deferred b)
    (hleft : b.literals = []) (hend : Ending conversion close k tail b.text) (n : Nat) :
    s = ['.'] ∧ literals = [] ∧ ∃ close',
      Pointed ⟨'.' :: (Numeral.ofNat n ++ after.terminated), []⟩ ('.' :: Numeral.ofNat n)
        (.given n) ⟨after.terminated, []⟩ ∧
      Ending conversion close' k tail after.terminated := by
  obtain ⟨hs, -, hliterals⟩ := h.of_deferred
  obtain ⟨hafter, hrest⟩ := List.cons.inj hliterals
  obtain ⟨close', hending⟩ := hend.terminated
  rw [← hafter] at hending
  have hdigit := hending.not_begins fun c => Follows.not_digit
  exact ⟨hs, hrest.trans hleft, close', .point (measured_ofNat hdigit), hending⟩

/-- The literal with the point is the first one, unless the width is deferred, too. -/
theorem Specified.inline_precision (h : Specified literal (after :: following) g spec tail [])
    (hw : spec.width ≠ .deferred) (hp : spec.precision = .deferred) (n : Nat) :
    ∃ g', g'.width = g.width ∧ g'.precision = '.' :: Numeral.ofNat n ∧
      Specified (literal.inlined n after) following g'
        { spec with precision := .given n } tail [] := by
  obtain ⟨opening, aligned, signed, pretty, zeroPad, width, precision, ending, hleft, lettered,
    closed⟩ := h
  rename_i r a b
  obtain ⟨text, literals⟩ := a
  rw [hp] at precision
  obtain ⟨rfl, -, -⟩ := precision.of_deferred
  have hr : r ≠ [] := fun hr => hw (width.deferred_iff.mpr hr)
  obtain ⟨rfl, hwidth⟩ := width.append_of_ne hw (List.cons_ne_nil _ _)
    (Numeral.ofNat n ++ after.terminated) []
  obtain ⟨-, rfl, close, hpointed, hending⟩ := precision.inline hleft ⟨ending, lettered, closed⟩ n
  have hopened : Opened g spec ((g.zeroPad ++ r) ++ (Numeral.ofNat n ++ after.terminated)) :=
    Opened.append ⟨aligned, signed, pretty⟩
      (not_begins_ofNat (fun c => not_alignment_of_digit) n _) fun hnil =>
        absurd (List.append_eq_nil_iff.mp hnil).2 hr
  rw [List.append_assoc] at hopened
  refine ⟨{ g with precision := '.' :: Numeral.ofNat n, close }, rfl, rfl, ?_⟩
  refine .intro ?_ hopened.aligned hopened.signed hopened.pretty
    (zeroPad.append fun _ hnil => absurd hnil hr) hwidth hpointed hending.text rfl
    hending.lettered hending.closed
  rw [Text.inlined, opening, List.append_assoc]
  rfl

theorem Specified.inline_precision_behind
    (h : Specified literal (before :: after :: following) g spec tail [])
    (hw : spec.width = .deferred) (hp : spec.precision = .deferred) (n : Nat) :
    ∃ g', g'.width = g.width ∧ g'.precision = '.' :: Numeral.ofNat n ∧
      Specified literal (before.inlined n after :: following) g'
        { spec with precision := .given n } tail [] := by
  obtain ⟨opening, aligned, signed, pretty, zeroPad, width, precision, ending, hleft, lettered,
    closed⟩ := h
  rename_i r a b
  obtain ⟨text, literals⟩ := a
  rw [hw] at width
  rw [hp] at precision
  obtain ⟨rfl, hwidth, hliterals⟩ := width.of_deferred
  obtain ⟨rfl, rfl⟩ := List.cons.inj hliterals
  obtain ⟨rfl, rfl, close, hpointed, hending⟩ :=
    precision.inline hleft ⟨ending, lettered, closed⟩ n
  refine ⟨{ g with precision := '.' :: Numeral.ofNat n, close }, rfl, rfl, ?_⟩
  refine .intro opening aligned signed pretty zeroPad ?_ hpointed hending.text rfl
    hending.lettered hending.closed
  rw [hw, hwidth]
  exact .deferred _ _

end Grammar

end SlotText
