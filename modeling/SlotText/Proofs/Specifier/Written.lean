import SlotText.Proofs.Specifier.Fused
import SlotText.Proofs.Numeral.Decimal

/-!
# Writing specifiers

A specifier is written as the literals that it is read from. Whatever is as by default is left
out; a literal ends where a deferred width would stand and behind the point of a deferred
precision. Reading the literals gives the specifier back.

The reader takes a part as soon as it sees its first character, so the proof has to say which
characters come next. Every character that can begin a part has a place in the order of the
parts, and a written text goes on with a character of a later place than the part just read.
-/
namespace SlotText
open Grammar

namespace Specifier

/-- The parts of a specifier, empty where it is as by default. -/
def parts (spec : Specifier) : Parts where
  alignment :=
    if spec.fill ≠ [' '] then spec.fill ++ [spec.alignment.symbol]
    else if spec.alignment ≠ .right then [spec.alignment.symbol]
    else []
  sign := spec.sign.symbol
  pretty := if spec.pretty then ['#'] else []
  zeroPad := if spec.zeroPad then ['0'] else []
  width := match spec.width with
    | .given n => if n = 0 then [] else Numeral.ofInt n
    | _ => []
  precision := match spec.precision with
    | .absent => []
    | .given n => '.' :: Numeral.ofInt n
    | .deferred => ['.']
  conversion := spec.conversion.symbol
  close := [';']

/-- The literals of a specifier with a text behind it, cut where an amount is deferred. -/
def literals (spec : Specifier) (tail : Text) : List Text :=
  let g := spec.parts
  let ending := g.conversion ++ (g.close ++ tail)
  match spec.width, spec.precision with
  | .deferred, .deferred => [g.flags, g.precision, ending]
  | .deferred, _ => [g.flags, g.precision ++ ending]
  | _, .deferred => [g.flags ++ (g.width ++ g.precision), ending]
  | _, _ => [g.flags ++ (g.width ++ (g.precision ++ ending))]

/-- What can be written: a colon is no fill, and amounts are natural numbers with no more digits
than a numeral may have. -/
structure Writable (spec : Specifier) : Prop where
  fill : ∃ c, spec.fill = [c] ∧ c ≠ ':'
  width : spec.width = .deferred ∨
    ∃ n : Nat, n < Nat.pow 10 Numeral.longest ∧ spec.width = .given n
  precision : spec.precision = .absent ∨ spec.precision = .deferred ∨
    ∃ n : Nat, n < Nat.pow 10 Numeral.longest ∧ spec.precision = .given n

end Specifier

namespace Grammar

/-- The place of a part behind the alignment, by the character that begins it. -/
def place (c : Char) : Nat :=
  if (SignPolicy.ofSymbol? c).isSome then 1
  else if c = '#' then 2
  else if c = '0' then 3
  else if Numeral.isDigit c then 4
  else if c = '.' then 5
  else if (Conversion.ofSymbol? c).isSome then 6
  else if c = ';' then 7
  else 0

/-- A text that is empty or goes on with a part of a later place. -/
def Later (k : Nat) (s : Text) : Prop := ∀ c ∈ s.head?, k < place c

theorem Later.nil (k : Nat) : Later k [] := by simp [Later]

theorem Later.cons {k : Nat} {c : Char} (h : k < place c) (s : Text) : Later k (c :: s) := by
  simpa [Later] using h

theorem Later.mono {j k : Nat} {s : Text} (h : Later k s) (hjk : j ≤ k) : Later j s := by
  intro c hc
  exact Nat.lt_of_le_of_lt hjk (h c hc)

theorem Later.not_begins {k : Nat} {s : Text} {p : Char → Prop} (h : Later k s)
    (hp : ∀ c, p c → place c ≤ k) : ¬s.Begins p := by
  intro hb
  cases s with
  | nil => exact hb
  | cons c s =>
      have hlt : k < place c := h c rfl
      have hle := hp c hb
      omega

theorem Later.not_begins_char {k : Nat} {s : Text} {d : Char} (h : Later k s)
    (hd : place d ≤ k) : ¬s.Begins (· = d) := by
  apply h.not_begins
  intro c hc
  rwa [hc]

theorem place_alignment {c : Char} (h : IsAlignment c) : place c = 0 := by
  obtain ⟨a, rfl⟩ := h
  cases a <;> rfl

theorem place_sign {c : Char} (h : IsSign c) : place c = 1 := by
  rcases h with rfl | rfl <;> rfl

theorem place_letter {c : Char} (h : IsLetter c) : place c = 6 := by
  obtain ⟨k, hk⟩ := h
  cases k <;> cases hk <;> rfl

theorem place_digit {c : Char} (h : IsDigit c) : c = '0' ∧ place c = 3 ∨ c ≠ '0' ∧ place c = 4 := by
  have hne : ∀ d, Numeral.isDigit d = false → c ≠ d := by
    intro d hd hcd
    rw [IsDigit, hcd, hd] at h
    cases h
  have hs : SignPolicy.ofSymbol? c = none := by
    simp [SignPolicy.ofSymbol?, hne '+' rfl, hne '-' rfl]
  by_cases hz : c = '0'
  · exact .inl ⟨hz, hz ▸ rfl⟩
  · have hd : Numeral.isDigit c = true := h
    exact .inr ⟨hz, by simp [place, hs, hne '#' rfl, hz, hd]⟩

theorem place_digit_bounds {c : Char} (h : IsDigit c) : 0 < place c ∧ place c ≤ 4 := by
  rcases place_digit h with ⟨-, hp⟩ | ⟨-, hp⟩ <;> omega

theorem Later.not_begins_digit {s : Text} (h : Later 4 s) : ¬s.Begins IsDigit := by
  apply h.not_begins
  intro c hc
  exact (place_digit_bounds hc).2

variable {spec : Specifier} {rest tail : Text}

theorem alignment_cases (hw : spec.Writable) :
    spec.fill = [' '] ∧ spec.alignment = .right ∧ spec.parts.alignment = [] ∨
    spec.fill = [' '] ∧ spec.parts.alignment = [spec.alignment.symbol] ∨
    ∃ c, c ≠ ':' ∧ spec.fill = [c] ∧ spec.parts.alignment = [c, spec.alignment.symbol] := by
  obtain ⟨c, hc, hne⟩ := hw.fill
  by_cases hf : spec.fill = [' ']
  · by_cases ha : spec.alignment = .right
    · exact .inl ⟨hf, ha, by simp [Specifier.parts, hf, ha]⟩
    · exact .inr (.inl ⟨hf, by simp [Specifier.parts, hf, ha]⟩)
  · refine .inr (.inr ⟨c, hne, hc, ?_⟩)
    simp only [Specifier.parts, if_pos hf]
    rw [hc]
    rfl

theorem width_cases (hw : spec.Writable) :
    spec.width = .deferred ∧ spec.parts.width = [] ∨
    spec.width = .given 0 ∧ spec.parts.width = [] ∨
    ∃ n : Nat, n ≠ 0 ∧ n < Nat.pow 10 Numeral.longest ∧ spec.width = .given n ∧
      spec.parts.width = Numeral.ofNat n := by
  rcases hw.width with hd | ⟨n, hlt, hn⟩
  · exact .inl ⟨hd, by simp [Specifier.parts, hd]⟩
  · by_cases hz : n = 0
    · exact .inr (.inl ⟨by rw [hn, hz]; rfl, by simp [Specifier.parts, hn, hz]⟩)
    · refine .inr (.inr ⟨n, hz, hlt, hn, ?_⟩)
      simp only [Specifier.parts, hn, Int.natCast_eq_zero, hz, if_false]
      rfl

theorem precision_cases (hw : spec.Writable) :
    spec.precision = .absent ∧ spec.parts.precision = [] ∨
    spec.precision = .deferred ∧ spec.parts.precision = ['.'] ∨
    ∃ n : Nat, n < Nat.pow 10 Numeral.longest ∧ spec.precision = .given n ∧
      spec.parts.precision = '.' :: Numeral.ofNat n := by
  rcases hw.precision with ha | hd | ⟨n, hlt, hn⟩
  · exact .inl ⟨ha, by simp [Specifier.parts, ha]⟩
  · exact .inr (.inl ⟨hd, by simp [Specifier.parts, hd]⟩)
  · refine .inr (.inr ⟨n, hlt, hn, ?_⟩)
    simp only [Specifier.parts, hn]
    rfl

theorem conversion_cases (spec : Specifier) :
    spec.conversion = .natural ∧ spec.parts.conversion = [] ∨
    spec.conversion ≠ .natural ∧ ∃ c, IsLetter c ∧ spec.parts.conversion = [c] := by
  by_cases hn : spec.conversion = .natural
  · exact .inl ⟨hn, by simp [Specifier.parts, hn, Conversion.symbol]⟩
  · obtain ⟨c, hc, -⟩ := Conversion.ofSymbol?_symbol hn
    exact .inr ⟨hn, c, ⟨_, hc⟩, hc⟩

theorem sign_cases (spec : Specifier) :
    spec.sign = .nothing ∧ spec.parts.sign = [] ∨ spec.sign = .plus ∧ spec.parts.sign = ['+'] ∨
    spec.sign = .blank ∧ spec.parts.sign = ['-'] := by
  cases hs : spec.sign <;> simp [Specifier.parts, hs, SignPolicy.symbol]

theorem later_close (k : Nat) (hk : k ≤ 6) (tail : Text) : Later k (';' :: tail) :=
  .cons (Nat.lt_of_le_of_lt hk (by decide)) tail

theorem later_conversion (spec : Specifier) (h : Later 6 rest) :
    Later 5 (spec.parts.conversion ++ rest) := by
  rcases conversion_cases spec with ⟨-, hs⟩ | ⟨-, c, hc, hs⟩
  · rw [hs]
    exact h.mono (by decide)
  · rw [hs]
    exact .cons (by rw [place_letter hc]; decide) rest

theorem later_precision (hw : spec.Writable) (h : Later 5 rest) :
    Later 4 (spec.parts.precision ++ rest) := by
  rcases precision_cases hw with ⟨-, hs⟩ | ⟨-, hs⟩ | ⟨n, -, -, hs⟩
  · rw [hs]
    exact h.mono (by decide)
  · rw [hs]
    exact .cons (by decide) rest
  · rw [hs]
    exact .cons (by decide) _

theorem later_width (hw : spec.Writable) (h : Later 4 rest) :
    Later 3 (spec.parts.width ++ rest) := by
  rcases width_cases hw with ⟨-, hs⟩ | ⟨-, hs⟩ | ⟨n, hz, -, -, hs⟩
  · rw [hs]
    exact h.mono (by decide)
  · rw [hs]
    exact h.mono (by decide)
  · rw [hs]
    cases hd : Numeral.ofNat n with
    | nil => exact absurd hd (Numeral.ofNat_ne_nil n)
    | cons c ds =>
        have hc : IsDigit c := Numeral.isDigit_of_mem_ofNat (hd ▸ List.mem_cons_self)
        have hne : c ≠ '0' := by
          intro h0
          exact Numeral.head?_ofNat_ne_zero hz (by rw [hd, h0]; rfl)
        rcases place_digit hc with ⟨h0, -⟩ | ⟨-, hp⟩
        · exact absurd h0 hne
        · exact .cons (by omega) _

theorem later_flag {k : Nat} {flag : Char} (hk : place flag = k + 1) (b : Bool)
    (h : Later (k + 1) rest) : Later k ((if b then [flag] else []) ++ rest) := by
  cases b
  · exact h.mono (Nat.le_succ k)
  · exact .cons (by omega) rest

theorem later_sign (spec : Specifier) (h : Later 1 rest) : Later 0 (spec.parts.sign ++ rest) := by
  rcases sign_cases spec with ⟨-, hs⟩ | ⟨-, hs⟩ | ⟨-, hs⟩
  · rw [hs]
    exact h.mono (by decide)
  · rw [hs]
    exact .cons (by decide) rest
  · rw [hs]
    exact .cons (by decide) rest

theorem measured_ofNat {n : Nat} {literals : List Text} (h : ¬rest.Begins IsDigit) :
    Measured ⟨Numeral.ofNat n ++ rest, literals⟩ (Numeral.ofNat n) (.given n)
      ⟨rest, literals⟩ := by
  have hm : Measured ⟨Numeral.ofNat n ++ rest, literals⟩ (Numeral.ofNat n)
      (.given (Numeral.ofText (Numeral.ofNat n))) ⟨rest, literals⟩ :=
    .digits (Numeral.ofNat_ne_nil n) (fun c hc => Numeral.isDigit_of_mem_ofNat hc) h
  rwa [Numeral.ofText_ofNat] at hm

theorem measured_width (hw : spec.Writable) (hd : spec.width ≠ .deferred) {literals : List Text}
    (h : Later 4 rest) (hne : rest ≠ []) :
    Measured ⟨spec.parts.width ++ rest, literals⟩ spec.parts.width spec.width
      ⟨rest, literals⟩ := by
  rcases width_cases hw with ⟨hd', -⟩ | ⟨hz, hs⟩ | ⟨n, -, -, hn, hs⟩
  · exact absurd hd' hd
  · rw [hs, hz]
    cases rest with
    | nil => exact absurd rfl hne
    | cons c rest => exact .zero h.not_begins_digit
  · rw [hs, hn]
    exact measured_ofNat h.not_begins_digit

theorem pointed_precision (hw : spec.Writable) (hd : spec.precision ≠ .deferred)
    {literals : List Text} (h : Later 5 rest) :
    Pointed ⟨spec.parts.precision ++ rest, literals⟩ spec.parts.precision spec.precision
      ⟨rest, literals⟩ := by
  rcases precision_cases hw with ⟨ha, hs⟩ | ⟨hd', -⟩ | ⟨n, -, hn, hs⟩
  · rw [hs, ha]
    exact .absent (h.not_begins_char (by decide))
  · exact absurd hd' hd
  · rw [hs, hn]
    exact .point (measured_ofNat (h.mono (by decide)).not_begins_digit)

theorem lettered_conversion (h : Later 6 rest) :
    Lettered spec.parts.conversion spec.conversion rest := by
  rcases conversion_cases spec with ⟨hn, hs⟩ | ⟨hn, -⟩
  · rw [hs, hn]
    apply Lettered.absent
    apply h.not_begins
    intro c hc
    exact Nat.le_of_eq (place_letter hc)
  · exact .letter rest hn

theorem flagged_flag {k : Nat} {flag : Char} (hk : place flag = k) (b : Bool) (h : Later k rest) :
    Flagged flag (if b then [flag] else []) b rest := by
  cases b
  · exact .absent (h.not_begins_char (Nat.le_of_eq hk))
  · exact .present rest

theorem signed_sign (h : Later 1 rest) : Signed spec.parts.sign spec.sign rest := by
  rcases sign_cases spec with ⟨hn, hs⟩ | ⟨hn, hs⟩ | ⟨hn, hs⟩
  · rw [hs, hn]
    apply Signed.absent
    apply h.not_begins
    intro c hc
    exact Nat.le_of_eq (place_sign hc)
  · rw [hs, hn]
    exact .plus rest
  · rw [hs, hn]
    exact .blank rest

/-- An alignment that is left out could be mistaken for one only if the character after the next
one were an alignment sign. -/
theorem aligned_alignment (hw : spec.Writable) (h : Later 0 rest)
    (htail : spec.parts.alignment = [] → ¬Text.Begins IsAlignment rest.tail) :
    Aligned spec.parts.alignment spec.fill spec.alignment rest := by
  have hrest : ¬rest.Begins IsAlignment := by
    apply h.not_begins
    intro c hc
    exact Nat.le_of_eq (place_alignment hc)
  rcases alignment_cases hw with ⟨hf, ha, hs⟩ | ⟨hf, hs⟩ | ⟨c, -, hf, hs⟩
  · rw [hf, ha]
    exact hs ▸ .absent hrest (htail hs)
  · rw [hs, hf]
    exact .bare _ hrest
  · rw [hs, hf]
    exact .filled c _ rest

theorem not_begins_colon (hw : spec.Writable) (h : Later 0 rest) :
    ¬Text.Begins (· = ':') (spec.parts.alignment ++ rest) := by
  rcases alignment_cases hw with ⟨-, -, hs⟩ | ⟨-, hs⟩ | ⟨c, hne, -, hs⟩
  · rw [hs]
    exact h.not_begins_char (by decide)
  · rw [hs]
    cases spec.alignment <;> exact Char.ne_of_val_ne (by decide)
  · rw [hs]
    exact hne

/-- What is written behind the width. -/
def behind (spec : Specifier) (tail : Text) : Ahead :=
  let ending := spec.parts.conversion ++ (spec.parts.close ++ tail)
  if spec.precision = .deferred then ⟨spec.parts.precision, [ending]⟩
  else ⟨spec.parts.precision ++ ending, []⟩

theorem literals_eq (spec : Specifier) (tail : Text) :
    spec.literals tail =
      if spec.width = .deferred then
        spec.parts.flags :: (behind spec tail).text :: (behind spec tail).literals
      else (spec.parts.flags ++ (spec.parts.width ++ (behind spec tail).text)) ::
        (behind spec tail).literals := by
  by_cases hw : spec.width = .deferred
  · by_cases hp : spec.precision = .deferred <;> simp [Specifier.literals, behind, hw, hp]
  · by_cases hp : spec.precision = .deferred <;> simp [Specifier.literals, behind, hw, hp]

theorem later_behind (hw : spec.Writable) : Later 4 (behind spec tail).text := by
  have hending := later_conversion spec (later_close 6 (Nat.le_refl 6) tail)
  by_cases hp : spec.precision = .deferred
  · have h := later_precision hw (.nil 5)
    rw [List.append_nil] at h
    simpa only [behind, if_pos hp] using h
  · simp only [behind, if_neg hp]
    exact later_precision hw hending

theorem behind_ne_nil (spec : Specifier) (tail : Text) : (behind spec tail).text ≠ [] := by
  by_cases hp : spec.precision = .deferred <;> simp [behind, Specifier.parts, hp]

theorem pointed_behind (hw : spec.Writable) :
    Pointed (behind spec tail) spec.parts.precision spec.precision
      ⟨spec.parts.conversion ++ (spec.parts.close ++ tail), []⟩ := by
  by_cases hp : spec.precision = .deferred
  · have hs : spec.parts.precision = ['.'] := by simp [Specifier.parts, hp]
    simp only [behind, if_pos hp]
    rw [hs, hp]
    exact .point (.deferred _ _)
  · simp only [behind, if_neg hp]
    exact pointed_precision hw hp (later_conversion spec (later_close 6 (Nat.le_refl 6) tail))

/-- The parts between the alignment and the end. -/
def inner (spec : Specifier) : Text :=
  spec.parts.sign ++ (spec.parts.pretty ++ (spec.parts.zeroPad ++
    (spec.parts.width ++ (spec.parts.precision ++ spec.parts.conversion))))

theorem place_pos_of_mem_inner (hw : spec.Writable) {c : Char} (h : c ∈ inner spec) :
    0 < place c := by
  have hdigit : ∀ n, c ∈ Numeral.ofNat n → 0 < place c := fun n hc =>
    (place_digit_bounds (Numeral.isDigit_of_mem_ofNat hc)).1
  have hflag : ∀ flag b, 0 < place flag → c ∈ (if b = true then [flag] else []) → 0 < place c := by
    intro flag b hp hc
    cases b
    · cases hc
    · rwa [List.mem_singleton.mp hc]
  simp only [inner, List.mem_append] at h
  rcases h with h | h | h | h | h | h
  · rcases sign_cases spec with ⟨-, hs⟩ | ⟨-, hs⟩ | ⟨-, hs⟩ <;> rw [hs] at h
    · cases h
    · rw [List.mem_singleton.mp h]
      decide
    · rw [List.mem_singleton.mp h]
      decide
  · exact hflag '#' _ (by decide) h
  · exact hflag '0' _ (by decide) h
  · rcases width_cases hw with ⟨-, hs⟩ | ⟨-, hs⟩ | ⟨n, -, -, -, hs⟩ <;> rw [hs] at h
    · cases h
    · cases h
    · exact hdigit n h
  · rcases precision_cases hw with ⟨-, hs⟩ | ⟨-, hs⟩ | ⟨n, -, -, hs⟩ <;> rw [hs] at h
    · cases h
    · rw [List.mem_singleton.mp h]
      decide
    · rcases List.mem_cons.mp h with h | h
      · rw [h]
        decide
      · exact hdigit n h
  · rcases conversion_cases spec with ⟨-, hs⟩ | ⟨-, k, hk, hs⟩ <;> rw [hs] at h
    · cases h
    · rw [List.mem_singleton.mp h, place_letter hk]
      decide

theorem not_begins_tail {p : Char → Prop} {s t : Text} (hs : ∀ c ∈ s, ¬p c)
    (ht : ¬t.Begins p) (hnil : s = [] → ¬Text.Begins p t.tail) :
    ¬Text.Begins p (s ++ t).tail := by
  match s with
  | [] => exact hnil rfl
  | [c] => exact ht
  | c :: d :: s => exact hs d (by simp)

/-- No alignment sign stands second, behind the alignment. A front part of the specifier has none
at all; the whole specifier is followed by a semicolon, and by the tail. -/
theorem not_begins_tail_inner (hw : spec.Writable) (tail : Text) {s : Text}
    (hs : s <+: inner spec) :
    ¬Text.Begins IsAlignment s.tail ∧
    ((s = [] → ¬Text.Begins IsAlignment tail) →
      ¬Text.Begins IsAlignment (s ++ (spec.parts.close ++ tail)).tail) := by
  have hplain : ∀ c ∈ s, ¬IsAlignment c := by
    intro c hc ha
    have hpos := place_pos_of_mem_inner hw (hs.subset hc)
    rw [place_alignment ha] at hpos
    exact Nat.lt_irrefl 0 hpos
  have hclose : ¬Text.Begins IsAlignment (spec.parts.close ++ tail) :=
    (later_close 0 (by decide) tail).not_begins fun c hc => Nat.le_of_eq (place_alignment hc)
  constructor
  · have h := not_begins_tail (t := []) hplain id fun _ => id
    rwa [List.append_nil] at h
  · exact not_begins_tail hplain hclose

theorem specified_of_amounts (hw : spec.Writable) {r : Text} {following : List Text} {a : Ahead}
    (hr : Later 3 r)
    (htail : spec.parts.alignment = [] → ¬Text.Begins IsAlignment
      (spec.parts.sign ++ (spec.parts.pretty ++ (spec.parts.zeroPad ++ r))).tail)
    (hwidth : Measured ⟨r, following⟩ spec.parts.width spec.width a)
    (hprecision : Pointed a spec.parts.precision spec.precision
      ⟨spec.parts.conversion ++ (spec.parts.close ++ tail), []⟩) :
    ∃ rest, spec.parts.flags ++ r = ':' :: rest ∧ ¬Text.Begins (· = ':') rest ∧
      Specified (':' :: rest) following spec.parts spec tail [] := by
  have hz : Later 2 (spec.parts.zeroPad ++ r) := later_flag rfl spec.zeroPad hr
  have hp : Later 1 (spec.parts.pretty ++ (spec.parts.zeroPad ++ r)) :=
    later_flag rfl spec.pretty hz
  have hs := later_sign spec hp
  have hopen : spec.parts.flags ++ r = ':' :: (spec.parts.alignment ++
      (spec.parts.sign ++ (spec.parts.pretty ++ (spec.parts.zeroPad ++ r)))) := by
    simp [Parts.flags]
  exact ⟨_, hopen, not_begins_colon hw hs, .intro hopen.symm (aligned_alignment hw hs htail)
    (signed_sign hp) (flagged_flag rfl spec.pretty hz) (flagged_flag rfl spec.zeroPad hr) hwidth
    hprecision rfl rfl (lettered_conversion (later_close 6 (Nat.le_refl 6) tail))
    (.semicolon tail)⟩

/-- The first literal of a written specifier holds a specifier with the given meaning. -/
theorem specified_literals (hw : spec.Writable)
    (hbare : spec.literals tail = [':' :: ';' :: tail] → ¬Text.Begins IsAlignment tail) :
    ∃ rest following, spec.literals tail = (':' :: rest) :: following ∧
      ¬Text.Begins (· = ':') rest ∧
      Specified (':' :: rest) following spec.parts spec tail [] := by
  have hl := literals_eq spec tail
  by_cases hd : spec.width = .deferred
  · have hs : spec.parts.width = [] := by simp [Specifier.parts, hd]
    rw [if_pos hd] at hl
    have htail : ¬Text.Begins IsAlignment
        (spec.parts.sign ++ (spec.parts.pretty ++ (spec.parts.zeroPad ++ []))).tail :=
      (not_begins_tail_inner hw tail
        ⟨spec.parts.width ++ (spec.parts.precision ++ spec.parts.conversion), by simp [inner]⟩).1
    have hwidth : Measured ⟨[], (behind spec tail).text :: (behind spec tail).literals⟩
        spec.parts.width spec.width (behind spec tail) := by
      rw [hs, hd]
      exact .deferred _ _
    obtain ⟨rest, hopen, hc, hspec⟩ :=
      specified_of_amounts hw (.nil 3) (fun _ => htail) hwidth (pointed_behind hw)
    rw [List.append_nil] at hopen
    exact ⟨rest, _, hopen ▸ hl, hc, hspec⟩
  · rw [if_neg hd] at hl
    have htail : spec.parts.alignment = [] → ¬Text.Begins IsAlignment (spec.parts.sign ++
        (spec.parts.pretty ++ (spec.parts.zeroPad ++
          (spec.parts.width ++ (behind spec tail).text)))).tail := by
      intro ha
      by_cases hp : spec.precision = .deferred
      · simp only [behind, if_pos hp]
        exact (not_begins_tail_inner hw tail
          ⟨spec.parts.conversion, by simp [inner]⟩).1
      · have h := (not_begins_tail_inner hw tail (List.prefix_refl _)).2 (by
          intro hi
          apply hbare
          simp only [inner, List.append_eq_nil_iff] at hi
          obtain ⟨h₁, h₂, h₃, h₄, h₅, h₆⟩ := hi
          rw [hl, behind, if_neg hp, Parts.flags, ha, h₁, h₂, h₃, h₄, h₅, h₆]
          rfl)
        simp only [behind, if_neg hp]
        simpa only [inner, List.append_assoc] using h
    obtain ⟨rest, hopen, hc, hspec⟩ := specified_of_amounts hw (later_width hw (later_behind hw))
      htail (measured_width hw hd (later_behind hw) (behind_ne_nil spec tail)) (pointed_behind hw)
    exact ⟨rest, _, hopen ▸ hl, hc, hspec⟩

theorem length_width_le (hw : spec.Writable) : spec.parts.width.length ≤ Numeral.longest := by
  rcases width_cases hw with ⟨-, hs⟩ | ⟨-, hs⟩ | ⟨n, -, hlt, -, hs⟩
  · simp [hs]
  · simp [hs]
  · rw [hs]
    exact Numeral.length_ofNat_le (by decide) hlt

theorem length_precision_le (hw : spec.Writable) :
    spec.parts.precision.tail.length ≤ Numeral.longest := by
  rcases precision_cases hw with ⟨-, hs⟩ | ⟨-, hs⟩ | ⟨n, hlt, -, hs⟩
  · simp [hs]
  · simp [hs]
  · rw [hs, List.tail_cons]
    exact Numeral.length_ofNat_le (by decide) hlt

end Grammar

namespace Blueprint

theorem placementsFrom_skip (count : Int) (slot : Nat) (literals : List Text) :
    placementsFrom count slot literals.length literals = .ok [] := by
  induction literals generalizing slot with
  | nil => rfl
  | cons literal literals ih => exact ih (slot + 1)

/-- Reading a written specifier gives it back. The one exception is a specifier with nothing to
write in front of a text that begins with an alignment sign, where the semicolon is a fill. -/
theorem ofSegments_literals (head : Text) {spec : Specifier} {tail : Text} (hw : spec.Writable)
    (hbare : spec.literals tail = [':' :: ';' :: tail] → ¬Text.Begins IsAlignment tail) :
    ofSegments (head :: spec.literals tail) = .ok {
      head
      placements := [{
        slot := 0
        spec
        tail
        widthSlot := if spec.width = .deferred then some 1 else none
        precisionSlot :=
          if spec.precision = .deferred then some (if spec.width = .deferred then 2 else 1)
          else none
        escaped := false }]
      slotCount := (spec.literals tail).length } := by
  obtain ⟨rest, following, hl, hc, hs⟩ := specified_literals hw hbare
  have hread : Placement.read (0 : Nat) (spec.literals tail).length (':' :: rest) following =
      .ok (.ofSpecifier 0 spec tail) := by
    rw [read_of_colon hc]
    exact placement_of_specified rfl hs (length_width_le hw) (length_precision_le hw)
  have habsorbed : (Placement.ofSpecifier 0 spec tail).absorbed = following.length := by
    obtain ⟨taken, hf, hn, -⟩ := hs.fused
    rw [Placement.absorbed_ofSpecifier, ← hn, hf, List.append_nil]
  have hplacement : Placement.ofSpecifier 0 spec tail = {
      slot := 0
      spec
      tail
      widthSlot := if spec.width = .deferred then some 1 else none
      precisionSlot :=
        if spec.precision = .deferred then some (if spec.width = .deferred then 2 else 1)
        else none
      escaped := false } := by
    by_cases hd : spec.width = .deferred
    · simp [Placement.ofSpecifier, Amount.absorbed, hd]
    · cases hw' : spec.width with
      | deferred => exact absurd hw' hd
      | _ => simp [Placement.ofSpecifier, Amount.absorbed, hw']
  have hplacements : placementsFrom (spec.literals tail).length 0 0 (spec.literals tail) =
      .ok [.ofSpecifier 0 spec tail] := by
    rw [hl] at hread ⊢
    simp only [placementsFrom, hread, Outcome.ok_bind, Outcome.pure_eq, habsorbed,
      placementsFrom_skip]
  rw [ofSegments, hplacements, hplacement]
  rfl

/-- A zero can be a fill, a flag and a digit; the digits here end where a literal does. -/
theorem ofSegments_zero_fill :
    ofSegments ["a".toList, ":0^07.".toList, "; b".toList] = .ok {
      head := "a".toList
      placements := [{
        slot := 0
        spec := {
          fill := ['0']
          alignment := .center
          zeroPad := true
          width := .given 7
          precision := .deferred }
        tail := " b".toList
        precisionSlot := some 1 }]
      slotCount := 2 } := by
  have hlt : ∀ k, 1 ≤ k → 7 < Nat.pow 10 k := by
    intro k hk
    exact Nat.lt_of_lt_of_le (by decide : 7 < Nat.pow 10 1) (Nat.pow_le_pow_right (by decide) hk)
  have hw : Specifier.Writable {
      fill := ['0']
      alignment := .center
      zeroPad := true
      width := .given 7
      precision := .deferred } :=
    ⟨⟨'0', rfl, by decide⟩, .inr ⟨7, hlt _ (by decide), rfl⟩, .inr (.inl rfl)⟩
  have hbare : ¬Text.Begins IsAlignment " b".toList := by
    intro h
    obtain ⟨a, ha⟩ := h
    cases a <;> cases ha
  exact ofSegments_literals ['a'] hw fun _ => hbare

end Blueprint

end SlotText
