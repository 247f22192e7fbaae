import SlotText.Proofs.Specifier.Reading
import SlotText.Template.Blueprint

/-!
# No literal text is lost

A specifier and its tail together are the literals it was read from, one after another. So is a
plain literal, and an escaped one but for its first colon. The main result of this module says
which placement a slot has: it is found from the literals behind the slot by the grammar alone.
-/
namespace SlotText
open Grammar

namespace Grammar

theorem Measured.fused {a b : Ahead} {ds : Text} {m : Amount} (h : Measured a ds m b) :
    ∃ taken, a.literals = taken ++ b.literals ∧ taken.length = m.absorbed ∧
      a.text ++ taken.flatten = ds ++ b.text := by
  cases h with
  | digits _ _ _ => exact ⟨[], rfl, rfl, by simp⟩
  | zero _ => exact ⟨[], rfl, rfl, by simp⟩
  | deferred literal literals => exact ⟨[literal], rfl, rfl, by simp⟩

theorem Pointed.fused {a b : Ahead} {part : Text} {m : Amount} (h : Pointed a part m b) :
    ∃ taken, a.literals = taken ++ b.literals ∧ taken.length = m.absorbed ∧
      a.text ++ taken.flatten = part ++ b.text := by
  cases h with
  | absent _ => exact ⟨[], rfl, rfl, by simp⟩
  | point hm =>
      obtain ⟨taken, hl, hn, ht⟩ := hm.fused
      exact ⟨taken, hl, hn, by simpa using ht⟩

variable {literal tail : Text} {following left : List Text} {g : Parts} {spec : Specifier}

theorem Specified.fused (h : Specified literal following g spec tail left) :
    ∃ taken, following = taken ++ left ∧
      taken.length = spec.width.absorbed + spec.precision.absorbed ∧
      literal ++ taken.flatten = g.text ++ tail := by
  obtain ⟨opening, -, -, -, -, width, precision, ending, rest, -, -⟩ := h
  obtain ⟨t₁, hl₁, hn₁, ht₁⟩ := width.fused
  obtain ⟨t₂, hl₂, hn₂, ht₂⟩ := precision.fused
  refine ⟨t₁ ++ t₂, ?_, ?_, ?_⟩
  · rw [List.append_assoc, ← rest, ← hl₂]
    exact hl₁
  · rw [List.length_append, hn₁, hn₂]
  · dsimp only at ht₁
    rw [ending] at ht₂
    rw [opening, List.flatten_append, List.append_assoc, ← List.append_assoc _ t₁.flatten, ht₁,
      List.append_assoc, ht₂]
    simp [Parts.text]

theorem Measured.deferred_iff {a b : Ahead} {ds : Text} {m : Amount} (h : Measured a ds m b) :
    m = .deferred ↔ a.text = [] := by
  cases h with
  | digits hne _ _ => simp [hne]
  | zero _ => simp
  | deferred _ _ => simp

theorem Pointed.deferred_iff {a b : Ahead} {part : Text} {m : Amount} (h : Pointed a part m b) :
    m = .deferred ↔ a.text = ['.'] := by
  cases h with
  | absent hn =>
      constructor
      · intro h
        cases h
      · intro h
        rw [h] at hn
        exact absurd rfl hn
  | point hm => simpa using hm.deferred_iff

theorem Specified.width_deferred_iff (h : Specified literal following g spec tail left) :
    spec.width = .deferred ↔ literal = g.flags := by
  obtain ⟨opening, -, -, -, -, width, -, -, -, -, -⟩ := h
  rw [width.deferred_iff, opening, List.append_right_eq_self]

theorem Specified.precision_deferred_iff (h : Specified literal following g spec tail left) :
    spec.precision = .deferred ↔
      literal ++ (following.take spec.width.absorbed).flatten = g.flags ++ (g.width ++ ['.']) := by
  obtain ⟨opening, -, -, -, -, width, precision, -, -, -, -⟩ := h
  obtain ⟨taken, hl, hn, ht⟩ := width.fused
  dsimp only at hl ht
  rw [precision.deferred_iff, hl, ← hn, List.take_left, opening, List.append_assoc, ht,
    List.append_cancel_left_eq, List.append_cancel_left_eq]

theorem Measured.digits_infix {a b : Ahead} {ds : Text} {m : Amount} (h : Measured a ds m b) :
    ds <:+: a.text ∧ ∀ c ∈ ds, IsDigit c := by
  cases h with
  | digits _ hds _ => exact ⟨(List.prefix_append ..).isInfix, hds⟩
  | zero _ => exact ⟨List.nil_infix, by simp⟩
  | deferred _ _ => exact ⟨List.nil_infix, by simp⟩

theorem Pointed.digits_infix {a b : Ahead} {part : Text} {m : Amount} (h : Pointed a part m b) :
    part.tail <:+: a.text ∧ ∀ c ∈ part.tail, IsDigit c := by
  cases h with
  | absent _ => exact ⟨List.nil_infix, by simp⟩
  | point hm =>
      obtain ⟨hi, hds⟩ := hm.digits_infix
      exact ⟨hi.trans (List.suffix_cons ..).isInfix, hds⟩

/-- Behind a width lies the rest of the literal it stands in, or the next literal as a whole. -/
theorem Measured.ahead_infix {a b : Ahead} {ds : Text} {m : Amount} (h : Measured a ds m b) :
    b.text <:+: a.text ∨ b.text ∈ a.literals := by
  cases h with
  | digits _ _ _ => exact .inl (List.suffix_append ..).isInfix
  | zero _ => exact .inl (List.infix_refl _)
  | deferred literal literals => exact .inr List.mem_cons_self

theorem Specified.runs_le {limit : Nat} (h : Specified literal following g spec tail left)
    (hruns : ∀ s ∈ literal :: following, s.RunsWithin limit) :
    g.width.length ≤ limit ∧ g.precision.tail.length ≤ limit := by
  obtain ⟨opening, -, -, -, -, width, precision, -, -, -, -⟩ := h
  have hliteral := hruns literal List.mem_cons_self
  obtain ⟨hw, hwd⟩ := width.digits_infix
  obtain ⟨hp, hpd⟩ := precision.digits_infix
  have hr := (opening ▸ List.suffix_append .. : _ <:+ literal).isInfix
  refine ⟨hliteral _ (hw.trans hr) hwd, ?_⟩
  rcases width.ahead_infix with ha | ha
  · exact hliteral _ (hp.trans (ha.trans hr)) hpd
  · exact hruns _ (List.mem_cons_of_mem _ ha) _ hp hpd

end Grammar

/-- The literals behind slot `i` up to the one in front of slot `next`, as one text. -/
def fusedText (segments : List Text) (i next : Nat) : Text :=
  ((segments.take (next + 1)).drop (i + 1)).flatten

variable {segments following : List Text} {literal : Text} {i : Nat}

theorem fusedText_eq (h : segments.drop (i + 1) = literal :: following) (n : Nat) :
    fusedText segments i (i + 1 + n) = literal ++ (following.take n).flatten := by
  have hn : i + 1 + n + 1 - (i + 1) = n + 1 := by omega
  rw [fusedText, List.drop_take, hn, h, List.take_succ_cons, List.flatten_cons]

theorem placementAt_eq (h : segments.drop (i + 1) = literal :: following) :
    Blueprint.placementAt segments i =
      (Placement.read i (segments.length - 1) literal following >>= fun p =>
        .ok (p, (i + p.consumed : Int))) := by
  have hi : Blueprint.literalAfter? segments i = some (literal, following) := by
    have hn : ((i : Int) + 1).toNat = i + 1 := by omega
    rw [Blueprint.literalAfter?]
    simp only [show (0 : Int) ≤ (i : Int) + 1 by omega, if_true, hn, h]
  rw [Blueprint.placementAt, hi]
  rfl

/-- A slot has a placement exactly by the grammar: by default if no colon follows it, by default
with one colon less if two colons do, and otherwise by the specifier that the literals hold. -/
theorem placementAt_eq_ok_iff (hi : i + 1 < segments.length)
    (hruns : ∀ s ∈ segments, s.RunsWithin Numeral.longest) (p : Placement) (next : Nat) :
    Blueprint.placementAt segments i = .ok (p, (next : Int)) ↔
      ∃ literal following, segments.drop (i + 1) = literal :: following ∧
        ((¬literal.Begins (· = ':') ∧ next = i + 1 ∧ p = { slot := i, tail := literal }) ∨
        (∃ rest, literal = ':' :: ':' :: rest ∧ next = i + 1 ∧
          p = { slot := i, tail := ':' :: rest, escaped := true }) ∨
        ∃ (rest : Text) (g : Parts) (spec : Specifier) (tail : Text) (left : List Text),
          literal = ':' :: rest ∧ ¬rest.Begins (· = ':') ∧
          Specified literal following g spec tail left ∧
          fusedText segments i next = g.text ++ tail ∧
          next = i + 1 + spec.width.absorbed + spec.precision.absorbed ∧
          (spec.width = .deferred ↔ literal = g.flags) ∧
          (spec.precision = .deferred ↔
            fusedText segments i (i + 1 + spec.width.absorbed) = g.flags ++ (g.width ++ ['.'])) ∧
          p = .ofSpecifier i spec tail) := by
  obtain ⟨literal, following, hdrop⟩ :
      ∃ literal following, segments.drop (i + 1) = literal :: following := by
    cases hd : segments.drop (i + 1) with
    | nil => exact absurd (List.drop_eq_nil_iff.mp hd) (by omega)
    | cons literal following => exact ⟨literal, following, rfl⟩
  rw [placementAt_eq hdrop]
  constructor
  · intro h
    obtain ⟨p', hp, h⟩ := Outcome.bind_eq_ok.mp h
    injection h with h
    injection h with h hnext
    subst h
    refine ⟨literal, following, hdrop, ?_⟩
    rcases read_cases hp with ⟨hc, rfl⟩ | ⟨rest, rfl, rfl⟩ |
      ⟨rest, g, spec, tail, left, hl, hc, hs, rfl⟩
    · have hone : (i : Int) + 1 = next := hnext
      exact .inl ⟨hc, by omega, rfl⟩
    · have hone : (i : Int) + 1 = next := hnext
      exact .inr (.inl ⟨rest, rfl, by omega, rfl⟩)
    · refine .inr (.inr ⟨rest, g, spec, tail, left, hl, hc, hs, ?_⟩)
      obtain ⟨taken, hf, hn, ht⟩ := hs.fused
      have hnext' : next = i + 1 + (spec.width.absorbed + spec.precision.absorbed) := by
        rw [Placement.consumed, Placement.absorbed_ofSpecifier] at hnext
        omega
      refine ⟨?_, by omega, hs.width_deferred_iff, ?_, rfl⟩
      · rw [hnext', fusedText_eq hdrop, hf, ← hn, List.take_left, ht]
      · rw [fusedText_eq hdrop]
        exact hs.precision_deferred_iff
  · intro h
    obtain ⟨literal', following', hdrop', h⟩ := h
    cases hdrop.symm.trans hdrop'
    rcases h with ⟨hc, rfl, rfl⟩ | ⟨rest, rfl, rfl, rfl⟩ |
      ⟨rest, g, spec, tail, left, rfl, hc, hs, -, rfl, -, -, rfl⟩
    · rw [read_of_plain hc]
      rfl
    · rfl
    · have hmem : ∀ s ∈ (':' :: rest) :: following, Text.RunsWithin Numeral.longest s := by
        intro s hs
        exact hruns s (List.mem_of_mem_drop (hdrop ▸ hs))
      obtain ⟨hw, hp⟩ := hs.runs_le hmem
      rw [read_of_colon hc, placement_of_specified rfl hs hw hp, Outcome.ok_bind,
        Placement.consumed, Placement.absorbed_ofSpecifier]
      congr 2
      omega

/-- The width is deferred, and the specifier goes on in the literal behind the slot for it. -/
theorem placementAt_across_slot :
    Blueprint.placementAt ["".toList, ":*<".toList, ".2x; m".toList] 0 = .ok ({
      slot := 0
      spec := {
        fill := ['*']
        alignment := .left
        width := .deferred
        precision := .given 2
        conversion := .hexLower }
      tail := " m".toList
      widthSlot := some 1 }, 2) := by
  have hlength : ∀ s ∈ ["".toList, ":*<".toList, ".2x; m".toList],
      s.length ≤ Numeral.longest := by decide
  have hdigits : Measured ⟨['2'] ++ "x; m".toList, []⟩ ['2'] (.given (Numeral.ofText ['2']))
      ⟨"x; m".toList, []⟩ :=
    .digits (by decide) (List.forall_mem_singleton.mpr (by decide)) (by decide)
  have hs : Specified ":*<".toList [".2x; m".toList]
      { alignment := ['*', '<'], precision := ['.', '2'], conversion := ['x'], close := [';'] }
      { fill := ['*'], alignment := .left, width := .deferred, precision := .given 2,
        conversion := .hexLower } " m".toList [] :=
    .intro rfl (.filled '*' .left []) (.absent id) (.absent id) (.absent id)
      (.deferred ".2x; m".toList []) (.point hdigits) rfl rfl
      (.letter (k := .hexLower) ("; m".toList) (by decide)) (.semicolon " m".toList)
  have hruns : ∀ s ∈ ["".toList, ":*<".toList, ".2x; m".toList],
      Text.RunsWithin Numeral.longest s := fun s hs ds hds _ =>
    Nat.le_trans hds.length_le (hlength s hs)
  exact (placementAt_eq_ok_iff (by decide) hruns _ 2).mpr ⟨_, _, rfl, .inr (.inr
    ⟨_, _, _, _, _, rfl, by decide, hs, rfl, rfl, by decide, by decide, rfl⟩)⟩

end SlotText
