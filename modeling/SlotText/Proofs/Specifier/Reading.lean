import SlotText.Proofs.Specifier.Stages

/-!
# Reading accepts what the grammar describes

A specifier that is read is one that the grammar describes, with the meaning that was read; and
whatever the grammar describes is read, provided that no run of digits in it is too long to stand
for a number. In both directions the stages are taken one after another: what one of them leaves
is what lies ahead of the next.
-/
namespace SlotText

namespace Grammar
open Placement Placement.Reading

/-- What lies ahead of a reading. -/
def ahead (r : Reading) : Ahead := ⟨r.rest, r.following⟩

theorem measured_of_takeAmount {r r' : Reading} {m : Amount} (h : r.takeAmount = .ok (m, r')) :
    (∃ ds, Measured (ahead r) ds m (ahead r')) ∧ r'.slot = r.slot ∧
      r'.absorbed = r.absorbed + m.absorbed := by
  obtain ⟨ds, rest, hr, hds, hrest⟩ := exists_digits r.rest
  by_cases hne : ds = []
  · subst hne
    cases rest with
    | nil =>
        rw [takeAmount_of_end hr] at h
        obtain ⟨r₁, ha, h⟩ := Outcome.bind_eq_ok.mp h
        cases h
        unfold absorb at ha
        split at ha
        · exact absurd ha (Outcome.refuse_ne_ok _ _)
        · next literal literals hf =>
            cases ha
            refine ⟨⟨[], ?_⟩, rfl, rfl⟩
            unfold ahead
            rw [hr, hf]
            exact .deferred literal literals
    | cons c rest =>
        rw [takeAmount_of_other hr hrest] at h
        cases h
        refine ⟨⟨[], ?_⟩, rfl, rfl⟩
        unfold ahead
        rw [hr]
        exact .zero hrest
  · rw [takeAmount_of_digits hr hne hds hrest] at h
    obtain ⟨n, hn, h⟩ := Outcome.bind_eq_ok.mp h
    cases h
    unfold Numeral.read at hn
    split_ifs at hn
    cases hn
    refine ⟨⟨ds, ?_⟩, rfl, rfl⟩
    unfold ahead
    rw [hr]
    exact .digits hne hds hrest

theorem takeAmount_of_measured {r : Reading} {ds : Text} {m : Amount} {b : Ahead}
    (h : Measured (ahead r) ds m b) (hl : ds.length ≤ Numeral.longest) :
    ∃ r', r.takeAmount = .ok (m, r') ∧ ahead r' = b := by
  generalize hr : ahead r = a at h
  cases h with
  | digits hne hds hrest =>
      obtain ⟨hr, hf⟩ := Ahead.mk.inj hr
      rw [takeAmount_of_digits hr hne hds hrest, Numeral.read, if_neg (Nat.not_lt.mpr hl)]
      exact ⟨_, rfl, by rw [← hf]; rfl⟩
  | zero hc =>
      obtain ⟨hr', hf⟩ := Ahead.mk.inj hr
      exact ⟨r, takeAmount_of_other hr' hc, hr⟩
  | deferred literal literals =>
      obtain ⟨hr, hf⟩ := Ahead.mk.inj hr
      rw [takeAmount_of_end hr, absorb, hf]
      exact ⟨_, rfl, by simp [ahead, hr]⟩

theorem pointed_of_takePrecision {r r' : Reading} {m : Amount}
    (h : r.takePrecision = .ok (m, r')) :
    (∃ part, Pointed (ahead r) part m (ahead r')) ∧ r'.slot = r.slot ∧
      r'.absorbed = r.absorbed + m.absorbed := by
  unfold takePrecision at h
  split at h
  · next rest hr =>
      obtain ⟨⟨ds, hm⟩, hs, ha⟩ := measured_of_takeAmount h
      refine ⟨⟨'.' :: ds, ?_⟩, hs, ha⟩
      unfold ahead
      rw [hr]
      exact .point hm
  · next hn =>
      cases h
      refine ⟨⟨[], .absent ?_⟩, rfl, rfl⟩
      intro hb
      cases hr : r.rest with
      | nil => simp [ahead, hr, Text.Begins] at hb
      | cons c rest =>
          simp only [ahead, hr, Text.Begins] at hb
          exact hn rest (hb ▸ hr)

theorem takePrecision_of_pointed {r : Reading} {part : Text} {m : Amount} {b : Ahead}
    (h : Pointed (ahead r) part m b) (hl : part.tail.length ≤ Numeral.longest) :
    ∃ r', r.takePrecision = .ok (m, r') ∧ ahead r' = b := by
  generalize hr : ahead r = a at h
  cases h with
  | absent hn =>
      refine ⟨r, ?_, hr⟩
      subst hr
      unfold takePrecision
      split
      · next rest hr => simp [ahead, hr, Text.Begins] at hn
      · rfl
  | point hm =>
      obtain ⟨hr, hf⟩ := Ahead.mk.inj hr
      unfold takePrecision
      simp only [hr]
      subst hf
      exact takeAmount_of_measured (r := { r with rest := _ }) hm hl

end Grammar

namespace Placement.Reading
open Grammar

variable {r r' : Reading} {m : Amount} {spec : Specifier}

theorem length_le_of_takeAmount {ds : Text} {m' : Amount} {b : Ahead}
    (h : r.takeAmount = .ok (m', r')) (hm : Measured (ahead r) ds m b) :
    ds.length ≤ Numeral.longest := by
  generalize hr : ahead r = a at hm
  cases hm with
  | digits hne hds hrest =>
      obtain ⟨hr, -⟩ := Ahead.mk.inj hr
      rw [takeAmount_of_digits hr hne hds hrest] at h
      obtain ⟨n, hn, -⟩ := Outcome.bind_eq_ok.mp h
      unfold Numeral.read at hn
      split at hn
      · cases hn
      · omega
  | zero _ => exact Nat.zero_le _
  | deferred _ _ => exact Nat.zero_le _

theorem length_le_of_takePrecision {part : Text} {m' : Amount} {b : Ahead}
    (h : r.takePrecision = .ok (m', r')) (hp : Pointed (ahead r) part m b) :
    part.tail.length ≤ Numeral.longest := by
  generalize hr : ahead r = a at hp
  cases hp with
  | absent _ => exact Nat.zero_le _
  | point hm =>
      obtain ⟨hr, hf⟩ := Ahead.mk.inj hr
      unfold takePrecision at h
      simp only [hr] at h
      subst hf
      exact length_le_of_takeAmount (r := { r with rest := _ }) h hm

/-- Absorbing a slot moves a literal to those that are fused, and nothing else does anything to
them. -/
theorem fused_of_takeAmount (h : r.takeAmount = .ok (m, r')) :
    r'.fused ++ r'.following.flatten = r.fused ++ r.following.flatten := by
  obtain ⟨ds, rest, hr, hds, hrest⟩ := exists_digits r.rest
  by_cases hne : ds = []
  · subst hne
    cases rest with
    | nil =>
        rw [takeAmount_of_end hr] at h
        obtain ⟨r₁, ha, h⟩ := Outcome.bind_eq_ok.mp h
        cases h
        unfold absorb at ha
        split at ha
        · exact absurd ha (Outcome.refuse_ne_ok _ _)
        · next literal literals hf =>
            cases ha
            simp [hf]
    | cons c rest =>
        rw [takeAmount_of_other hr hrest] at h
        cases h
        rfl
  · rw [takeAmount_of_digits hr hne hds hrest] at h
    obtain ⟨n, -, h⟩ := Outcome.bind_eq_ok.mp h
    cases h
    rfl

theorem fused_of_takePrecision (h : r.takePrecision = .ok (m, r')) :
    r'.fused ++ r'.following.flatten = r.fused ++ r.following.flatten := by
  unfold takePrecision at h
  split at h
  · next rest _ => exact fused_of_takeAmount (r := { r with rest := rest }) h
  · cases h
    rfl

/-- All stages but the last one: the specifier, and the reading at which its end is looked for. -/
def specifier (r : Reading) : Outcome (Specifier × Reading) := do
  let ((fill, alignment), rest) := takeAlignment r.rest
  let (sign, rest) := takeSign rest
  let (pretty, rest) := takeFlag '#' rest
  let (zeroPad, rest) := takeFlag '0' rest
  let (width, r₁) ← takeAmount { r with rest := rest }
  let (precision, r₂) ← takePrecision r₁
  let (conversion, rest) := takeConversion r₂.rest
  return ({ fill, alignment, sign, pretty, zeroPad, width, precision, conversion },
    { r₂ with rest := rest })

/-- What the stages have read is a specifier but for its end. -/
theorem unclosed_of_specifier (h : r.specifier = .ok (spec, r')) :
    (∃ g, Unclosed (ahead r) g spec (ahead r') ∧ g.width.length ≤ Numeral.longest ∧
      g.precision.tail.length ≤ Numeral.longest) ∧ r'.slot = r.slot ∧
    r'.absorbed = r.absorbed + (spec.width.absorbed + spec.precision.absorbed) ∧
    r'.fused ++ r'.following.flatten = r.fused ++ r.following.flatten := by
  rcases ha : takeAlignment r.rest with ⟨⟨fill, alignment⟩, s₁⟩
  rcases hs : takeSign s₁ with ⟨sign, s₂⟩
  rcases hp : takeFlag '#' s₂ with ⟨pretty, s₃⟩
  rcases hz : takeFlag '0' s₃ with ⟨zeroPad, s₄⟩
  simp only [specifier, ha, hs, hp, hz] at h
  obtain ⟨⟨width, r₁⟩, hw, h⟩ := Outcome.bind_eq_ok.mp h
  obtain ⟨⟨precision, r₂⟩, hq, h⟩ := Outcome.bind_eq_ok.mp h
  rcases hk : takeConversion r₂.rest with ⟨conversion, s₅⟩
  simp only [hk] at h
  cases h
  obtain ⟨letter, ending, lettered⟩ := lettered_of_takeConversion hk
  obtain ⟨⟨point, pointed⟩, hslot₂, habs₂⟩ := pointed_of_takePrecision hq
  obtain ⟨⟨digits, measured⟩, hslot₁, habs₁⟩ := measured_of_takeAmount hw
  obtain ⟨zero, rfl, zeroed⟩ := flagged_of_takeFlag hz
  obtain ⟨mark, rfl, marked⟩ := flagged_of_takeFlag hp
  obtain ⟨plus, rfl, signed⟩ := signed_of_takeSign hs
  obtain ⟨arrow, opening, aligned⟩ := aligned_of_takeAlignment ha
  refine ⟨⟨⟨arrow, plus, mark, zero, digits, point, letter, []⟩, ?_, ?_, ?_⟩, ?_, ?_, ?_⟩
  · refine .intro opening aligned signed marked zeroed measured pointed ?_ lettered
    exact congrArg (Ahead.mk · r₂.following) ending
  · exact length_le_of_takeAmount hw measured
  · exact length_le_of_takePrecision hq pointed
  · exact hslot₂.trans hslot₁
  · dsimp only at habs₁ habs₂ ⊢
    omega
  · exact (fused_of_takePrecision hq).trans (fused_of_takeAmount (r := { r with rest := s₄ }) hw)

theorem specifier_of_unclosed {g : Parts} {finish : Ahead} (h : Unclosed (ahead r) g spec finish)
    (hw : g.width.length ≤ Numeral.longest) (hp : g.precision.tail.length ≤ Numeral.longest) :
    ∃ r', r.specifier = .ok (spec, r') ∧ ahead r' = finish := by
  obtain ⟨opening, aligned, signed, pretty, zeroPad, width, precision, ending, lettered⟩ := h
  rename_i s a b
  have hrest : r.rest = g.alignment ++ (g.sign ++ (g.pretty ++ (g.zeroPad ++ s))) := opening
  obtain ⟨r₁, h₁, rfl⟩ := takeAmount_of_measured (r := { r with rest := s }) width hw
  obtain ⟨r₂, h₂, hr₂⟩ := takePrecision_of_pointed precision hp
  obtain ⟨hrest₂, hfollowing⟩ := Ahead.mk.inj (hr₂.trans ending)
  simp only [specifier, hrest, takeAlignment_of_aligned aligned, takeSign_of_signed signed,
    takeFlag_of_flagged pretty, takeFlag_of_flagged zeroPad, h₁, h₂, Outcome.ok_bind, hrest₂,
    takeConversion_of_lettered lettered, Outcome.pure_eq]
  exact ⟨_, rfl, congrArg (Ahead.mk finish.text) hfollowing⟩

theorem placement_eq (hr : r.absorbed = 0) :
    r.placement = (r.specifier >>= fun x =>
      x.2.takeEnd >>= fun tail => .ok (.ofSpecifier r.slot x.1 tail)) := by
  rcases ha : takeAlignment r.rest with ⟨⟨fill, alignment⟩, s₁⟩
  rcases hs : takeSign s₁ with ⟨sign, s₂⟩
  rcases hp : takeFlag '#' s₂ with ⟨pretty, s₃⟩
  rcases hz : takeFlag '0' s₃ with ⟨zeroPad, s₄⟩
  simp only [placement, specifier, ha, hs, hp, hz, bind_assoc]
  cases hw : Reading.takeAmount { r with rest := s₄ } with
  | error e => rfl
  | ok x =>
      obtain ⟨width, r₁⟩ := x
      obtain ⟨-, hslot, habs⟩ := measured_of_takeAmount hw
      have hfirst : Reading.nextSlot { r with rest := s₄ } = r.slot + 1 := by
        simp [nextSlot, hr]
      have hsecond : r₁.nextSlot = r.slot + 1 + width.absorbed := by
        simp [nextSlot, hslot, habs, hr]
      simp only [Outcome.ok_bind, Outcome.pure_eq, ofSpecifier, hfirst, hsecond]

end Placement.Reading

namespace Grammar
open Placement Placement.Reading

theorem specified_of_placement {r : Reading} {p : Placement} (hr : r.absorbed = 0)
    (h : r.placement = .ok p) : ∃ g spec tail left,
      Specified (':' :: r.rest) r.following g spec tail left ∧
      p = .ofSpecifier r.slot spec tail := by
  rw [placement_eq hr] at h
  obtain ⟨⟨spec, r'⟩, hspecifier, h⟩ := Outcome.bind_eq_ok.mp h
  obtain ⟨tail, ht, h⟩ := Outcome.bind_eq_ok.mp h
  cases h
  obtain ⟨close, hrest, closed⟩ := takeEnd_eq_ok_iff.mp ht
  obtain ⟨⟨g, hunclosed, -⟩, -⟩ := unclosed_of_specifier hspecifier
  have hahead : ahead r' = ⟨close ++ tail, r'.following⟩ := congrArg (Ahead.mk · _) hrest
  rw [hahead] at hunclosed
  exact ⟨{ g with close := close }, spec, tail, r'.following, hunclosed.specified closed, rfl⟩

theorem placement_of_specified {r : Reading} {g : Parts} {spec : Specifier} {tail : Text}
    {left : List Text} (hr : r.absorbed = 0)
    (h : Specified (':' :: r.rest) r.following g spec tail left)
    (hw : g.width.length ≤ Numeral.longest) (hp : g.precision.tail.length ≤ Numeral.longest) :
    r.placement = .ok (.ofSpecifier r.slot spec tail) := by
  obtain ⟨hunclosed, closed⟩ := h.unclosed
  obtain ⟨r', hspecifier, hr'⟩ := specifier_of_unclosed (r := r) hunclosed hw hp
  have hend : r'.takeEnd = .ok tail :=
    takeEnd_eq_ok_iff.mpr ⟨g.close, congrArg Ahead.text hr', closed⟩
  rw [placement_eq hr, hspecifier, Outcome.ok_bind, hend, Outcome.ok_bind]

variable {slot count : Int} {literal : Text} {following : List Text} {p : Placement}

theorem read_of_plain (h : ¬literal.Begins (· = ':')) :
    Placement.read slot count literal following = .ok { slot, tail := literal } := by
  unfold Placement.read
  split
  · exact absurd rfl h
  · exact absurd rfl h
  · rfl

theorem read_of_colon {rest : Text} (h : ¬rest.Begins (· = ':')) :
    Placement.read slot count (':' :: rest) following =
      Reading.placement { slot, count, fused := ':' :: rest, rest, following } := by
  unfold Placement.read
  split
  · next hr =>
      cases hr
      exact absurd rfl h
  · next hr =>
      cases hr
      rfl
  · next hn => exact absurd rfl (hn rest)

theorem read_cases (h : Placement.read slot count literal following = .ok p) :
    (¬literal.Begins (· = ':') ∧ p = { slot, tail := literal }) ∨
    (∃ rest, literal = ':' :: ':' :: rest ∧ p = { slot, tail := ':' :: rest, escaped := true }) ∨
    ∃ (rest : Text) (g : Parts) (spec : Specifier) (tail : Text) (left : List Text),
      literal = ':' :: rest ∧ ¬rest.Begins (· = ':') ∧
      Specified literal following g spec tail left ∧ p = .ofSpecifier slot spec tail := by
  by_cases hc : literal.Begins (· = ':')
  · obtain ⟨rest, rfl⟩ := Text.begins_eq_iff.mp hc
    by_cases hd : rest.Begins (· = ':')
    · obtain ⟨rest, rfl⟩ := Text.begins_eq_iff.mp hd
      cases h
      exact .inr (.inl ⟨rest, rfl, rfl⟩)
    · rw [read_of_colon hd] at h
      obtain ⟨g, spec, tail, left, hs, hp⟩ := specified_of_placement rfl h
      exact .inr (.inr ⟨rest, g, spec, tail, left, rfl, hd, hs, hp⟩)
  · rw [read_of_plain hc] at h
    cases h
    exact .inl ⟨hc, rfl⟩

end Grammar

end SlotText
