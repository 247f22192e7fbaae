import SlotText.Proofs.Specifier.Stages

/-!
# A semicolon in the middle

A specifier can be ended at any place behind its last part, by a semicolon with other text behind
it. A place in the literals separates what lies before it from what lies ahead. The rules of the
grammar look ahead by one character, and by two for an alignment. Hence a rule goes on to hold when
what lies behind a place is replaced by a semicolon and some text, since no part of a specifier goes
on with a semicolon.
-/
namespace SlotText
namespace Grammar

/-- A place in some literals: those that lie before it as a whole, and the front of the literal in
which it lies. -/
structure Place where
  passed : List Text
  front : Text
  deriving DecidableEq, Repr

/-- A semicolon with some text in the place of what lies ahead in the same literal. -/
def Ahead.mended (b : Ahead) (tail : Text) : Ahead := ⟨';' :: tail, b.literals⟩

namespace Place

/-- What lies ahead of the beginning, where `b` lies ahead of the place. -/
def before (p : Place) (b : Ahead) : Ahead :=
  match p.passed with
  | [] => ⟨p.front ++ b.text, b.literals⟩
  | literal :: passed => ⟨literal, passed ++ (p.front ++ b.text) :: b.literals⟩

/-- The place in the same literals with some text in front of the first one. -/
def prepend (s : Text) : Place → Place
  | ⟨[], front⟩ => ⟨[], s ++ front⟩
  | ⟨literal :: passed, front⟩ => ⟨(s ++ literal) :: passed, front⟩

/-- The place in the same literals with another one in front of them. -/
def cons (literal : Text) (p : Place) : Place := ⟨literal :: p.passed, p.front⟩

/-- All that lies before the place. -/
def text (p : Place) : Text := p.passed.flatten ++ p.front

variable (p : Place) (b : Ahead) (s : Text)

theorem literals_before :
    (p.before b).text :: (p.before b).literals =
      p.passed ++ (p.front ++ b.text) :: b.literals := by
  obtain ⟨passed, front⟩ := p
  cases passed <;> rfl

@[simp] theorem text_before_prepend : ((p.prepend s).before b).text = s ++ (p.before b).text := by
  obtain ⟨passed, front⟩ := p
  cases passed with
  | nil => exact List.append_assoc s front b.text
  | cons literal passed => rfl

@[simp] theorem literals_before_prepend :
    ((p.prepend s).before b).literals = (p.before b).literals := by
  obtain ⟨passed, front⟩ := p
  cases passed <;> rfl

theorem before_prepend :
    (p.prepend s).before b = ⟨s ++ (p.before b).text, (p.before b).literals⟩ := by
  rw [← text_before_prepend, ← literals_before_prepend p b s]

theorem before_cons :
    (p.cons s).before b = ⟨s, (p.before b).text :: (p.before b).literals⟩ := by
  rw [literals_before]
  rfl

@[simp] theorem length_passed_prepend : (p.prepend s).passed.length = p.passed.length := by
  obtain ⟨passed, front⟩ := p
  cases passed <;> rfl

theorem text_prepend : (p.prepend s).text = s ++ p.text := by
  obtain ⟨passed, front⟩ := p
  cases passed <;> simp [prepend, text]

variable {p b} {P : Char → Prop}

theorem begins_mended (h : (p.before b).text.Begins P) (hP : P ';') (tail : Text) :
    (p.before (b.mended tail)).text.Begins P := by
  obtain ⟨passed, front⟩ := p
  match passed, front with
  | [], [] => exact hP
  | [], c :: front => exact h
  | literal :: passed, front => exact h

theorem not_begins_mended (h : ¬(p.before b).text.Begins P) (hP : ¬P ';') (tail : Text) :
    ¬(p.before (b.mended tail)).text.Begins P := by
  obtain ⟨passed, front⟩ := p
  match passed, front with
  | [], [] => exact hP
  | [], c :: front => exact h
  | literal :: passed, front => exact h

/-- One character further on, what follows the semicolon can come into sight. -/
theorem not_begins_tail_mended (h : ¬Text.Begins P (p.before b).text.tail) (hP : ¬P ';')
    {tail : Text} (htail : ¬tail.Begins P) :
    ¬Text.Begins P (p.before (b.mended tail)).text.tail := by
  obtain ⟨passed, front⟩ := p
  match passed, front with
  | [], [] => exact htail
  | [], [c] => exact hP
  | [], c :: d :: front => exact h
  | literal :: passed, front => exact h

end Place

section Rules

variable {a b : Ahead} {p : Place} {part : Text}

theorem not_isAlignment_semicolon : ¬IsAlignment ';' := by
  rintro ⟨a, ha⟩
  cases a <;> exact absurd ha (by decide)

theorem not_isSign_semicolon : ¬IsSign ';' := by
  unfold IsSign
  decide

theorem not_isDigit_semicolon : ¬IsDigit ';' := by decide

theorem not_isLetter_semicolon : ¬IsLetter ';' :=
  conversionOfSymbol?_eq_none_iff.mp (by decide)

theorem Aligned.mended {fill tail : Text} {al : Alignment}
    (h : Aligned part fill al (p.before b).text) (htail : ¬tail.Begins IsAlignment) :
    Aligned part fill al (p.before (b.mended tail)).text := by
  generalize hrest : (p.before b).text = rest at h
  cases h with
  | filled c al _ => exact .filled c al _
  | bare al hn =>
      subst hrest
      exact .bare al (Place.not_begins_mended hn not_isAlignment_semicolon tail)
  | absent hn ht =>
      subst hrest
      exact .absent (Place.not_begins_mended hn not_isAlignment_semicolon tail)
        (Place.not_begins_tail_mended ht not_isAlignment_semicolon htail)

theorem Signed.mended {sign : SignPolicy} (h : Signed part sign (p.before b).text) (tail : Text) :
    Signed part sign (p.before (b.mended tail)).text := by
  generalize hrest : (p.before b).text = rest at h
  cases h with
  | plus _ => exact .plus _
  | blank _ => exact .blank _
  | absent hn =>
      subst hrest
      exact .absent (Place.not_begins_mended hn not_isSign_semicolon tail)

theorem Flagged.mended {flag : Char} {present : Bool}
    (h : Flagged flag part present (p.before b).text) (hflag : ';' ≠ flag) (tail : Text) :
    Flagged flag part present (p.before (b.mended tail)).text := by
  generalize hrest : (p.before b).text = rest at h
  cases h with
  | present _ => exact .present _
  | absent hn =>
      subst hrest
      exact .absent (Place.not_begins_mended hn hflag tail)

theorem Lettered.mended {k : Conversion} (h : Lettered part k b.text) (tail : Text) :
    Lettered part k (b.mended tail).text := by
  generalize hrest : b.text = rest at h
  cases h with
  | letter _ hk => exact .letter _ hk
  | absent _ => exact .absent not_isLetter_semicolon

/-- The place behind an amount lies in the same literal or in the next one, also seen from before
the amount. -/
theorem Measured.exists_mended {ds : Text} {m : Amount} (h : Measured a ds m (p.before b)) :
    ∃ q : Place, a = q.before b ∧ q.passed.length = p.passed.length + m.absorbed ∧
      ∀ tail, Measured (q.before (b.mended tail)) ds m (p.before (b.mended tail)) := by
  generalize hb : p.before b = b' at h
  cases h with
  | @digits ds rest literals hne hds hrest =>
      have htext : (p.before b).text = rest := by rw [hb]
      subst htext
      refine ⟨p.prepend ds, ?_, by simp [Amount.absorbed], fun tail => ?_⟩
      · rw [Place.before_prepend, hb]
      · rw [Place.before_prepend]
        exact .digits hne hds (Place.not_begins_mended hrest not_isDigit_semicolon tail)
  | @zero c rest literals hc =>
      refine ⟨p, hb.symm, rfl, fun tail => ?_⟩
      have hbegins : (p.before b).text.Begins (¬IsDigit ·) := by
        rw [hb]
        exact hc
      have hmended := Place.begins_mended hbegins not_isDigit_semicolon tail
      generalize p.before (b.mended tail) = b'' at hmended
      obtain ⟨text, literals⟩ := b''
      cases text with
      | nil => exact absurd hmended id
      | cons d text => exact .zero hmended
  | deferred literal literals =>
      refine ⟨p.cons [], ?_, rfl, fun tail => ?_⟩
      · rw [Place.before_cons, hb]
      · rw [Place.before_cons]
        exact .deferred _ _

theorem Pointed.exists_mended {m : Amount} (h : Pointed a part m (p.before b)) :
    ∃ q : Place, a = q.before b ∧ q.passed.length = p.passed.length + m.absorbed ∧
      ∀ tail, Pointed (q.before (b.mended tail)) part m (p.before (b.mended tail)) := by
  generalize hb : p.before b = b' at h
  cases h with
  | absent hn =>
      subst hb
      exact ⟨p, rfl, rfl, fun tail => .absent (Place.not_begins_mended hn (by decide) tail)⟩
  | @point rest ds literals m b' hm =>
      subst hb
      obtain ⟨q, ha, hlength, hmended⟩ := hm.exists_mended
      refine ⟨q.prepend ['.'], ?_, by simp [hlength], fun tail => ?_⟩
      · rw [Place.before_prepend, ← ha]
        rfl
      · rw [Place.before_prepend]
        exact .point (hmended tail)

end Rules

variable {start finish : Ahead} {g : Parts} {spec : Specifier}

/-- The end of an unclosed specifier is a place behind as many literals as there are slots to be
absorbed. With a semicolon put there it stays the same. -/
theorem Unclosed.exists_mended (h : Unclosed start g spec finish) :
    ∃ p : Place, start = p.before finish ∧
      p.passed.length = spec.width.absorbed + spec.precision.absorbed ∧
      ∀ tail : Text, ¬tail.Begins IsAlignment →
        Unclosed (p.before (finish.mended tail)) g spec (finish.mended tail) := by
  obtain ⟨opening, aligned, signed, pretty, zeroPad, width, precision, ending, lettered⟩ := h
  rename_i r a b
  have hending : b = (⟨[], g.conversion⟩ : Place).before finish := ending
  subst hending
  obtain ⟨q, rfl, hq, hprecision⟩ := precision.exists_mended
  obtain ⟨p, hp, hlength, hwidth⟩ := width.exists_mended
  have hr : r = (p.before finish).text := by rw [← hp]
  have hliterals : start.literals = (p.before finish).literals := by rw [← hp]
  subst hr
  -- The place behind the flags, seen from before all of them.
  let q₁ := p.prepend g.zeroPad
  let q₂ := q₁.prepend g.pretty
  let q₃ := q₂.prepend g.sign
  have htext : ∀ b, ((q₃.prepend g.alignment).before b).text =
      g.alignment ++ (g.sign ++ (g.pretty ++ (g.zeroPad ++ (p.before b).text))) := by
    simp [q₁, q₂, q₃]
  have hrest : ∀ b, ((q₃.prepend g.alignment).before b).literals = (p.before b).literals := by
    simp [q₁, q₂, q₃]
  refine ⟨q₃.prepend g.alignment, ?_, ?_, fun tail htail => ?_⟩
  · obtain ⟨text, literals⟩ := start
    dsimp only at opening hliterals
    rw [Place.before_prepend, opening, hliterals]
    simp [q₁, q₂, q₃]
  · simp only [q₁, q₂, q₃, Place.length_passed_prepend]
    rw [hlength, hq, List.length_nil, Nat.zero_add, Nat.add_comm]
  · simp only [← Place.text_before_prepend] at aligned signed pretty zeroPad
    have haligned := aligned.mended htail
    have hsigned := signed.mended tail
    have hpretty := pretty.mended (by decide) tail
    have hzeroPad := zeroPad.mended (by decide) tail
    simp only [Place.text_before_prepend] at haligned hsigned hpretty
    refine .intro (htext _) haligned hsigned hpretty hzeroPad ?_ (hprecision tail) rfl
      (lettered.mended tail)
    rw [hrest]
    exact hwidth tail

end Grammar

end SlotText
