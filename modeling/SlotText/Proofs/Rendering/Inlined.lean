import SlotText.Proofs.Specifier.Inlined
import SlotText.Proofs.Rendering.Pieces
import SlotText.Proofs.Value.Layout

/-!
# Rendering amounts written inline

A width or a precision that a slot supplies can be written into the literals instead, and the slot
is then left out. The template renders as before: the placement takes the same amount from its
specifier, and all later placements take the values that they had, each one slot earlier.
-/
namespace SlotText

namespace Placement
open Grammar

variable {p : Placement} {before after : Text} {following : List Text} {n : Nat}
variable {values values' : List Value} {decorate : Bool} {piece : Rendered} {z : Bool} {j : Int}

/-- The placement with a width of its own. The slot for the precision moves up. -/
def inlineWidth (p : Placement) (z : Bool) (n : Nat) : Placement :=
  { p with
    spec := { p.spec with zeroPad := z, width := .given n }
    widthSlot := none
    precisionSlot := p.precisionSlot.map (· - 1) }

/-- The placement with a precision of its own. -/
def inlinePrecision (p : Placement) (n : Nat) : Placement :=
  { p with
    spec := { p.spec with precision := .given n }
    precisionSlot := none }

theorem inlineWidth_ofSpecifier {slot : Int} {spec : Specifier} {tail : Text}
    (hw : spec.width = .deferred) (z : Bool) (n : Nat) :
    (ofSpecifier slot spec tail).inlineWidth z n =
      ofSpecifier slot { spec with zeroPad := z, width := .given n } tail := by
  cases hp : spec.precision <;> simp [inlineWidth, ofSpecifier, hw, hp, Amount.absorbed]

theorem inlinePrecision_ofSpecifier (slot : Int) (spec : Specifier) (tail : Text) (n : Nat) :
    (ofSpecifier slot spec tail).inlinePrecision n =
      ofSpecifier slot { spec with precision := .given n } tail := by
  simp [inlinePrecision, ofSpecifier]

theorem Occupies.inlineWidth (h : p.Occupies (before :: after :: following))
    (hw : p.widthSlot.isSome) (hn : n < Nat.pow 10 Numeral.longest) :
    ∃ z, (n ≠ 0 → z = p.spec.zeroPad) ∧
      (p.inlineWidth z n).Occupies (before.inlined n after :: following) := by
  cases h with
  | @specified slot rest tail taken g spec hc hs hwidth hprecision =>
      have hdeferred : spec.width = .deferred := by
        simpa [ofSpecifier, Option.isSome_iff_exists] using hw
      obtain ⟨g', z, hz, hlength, hpart, hs'⟩ := hs.inline_width hdeferred n
      have hdigits := Numeral.length_ofNat_le (by decide) hn
      refine ⟨z, hz, ?_⟩
      rw [inlineWidth_ofSpecifier hdeferred]
      rw [← hpart] at hprecision
      exact .specified slot (not_begins_colon_inlined hc n after) hs'
        (Nat.le_trans hlength hdigits) hprecision

theorem Occupies.inlinePrecision {front : List Text}
    (h : p.Occupies (front ++ before :: after :: following))
    (hp : p.precisionSlot = some (p.slot + 1 + front.length))
    (hn : n < Nat.pow 10 Numeral.longest) :
    (p.inlinePrecision n).Occupies (front ++ before.inlined n after :: following) := by
  have hdigits := Numeral.length_ofNat_le (by decide) hn
  generalize hgroup : front ++ before :: after :: following = group at h
  cases h with
  | plain slot hc => cases hp
  | escaped slot rest => cases hp
  | @specified slot rest tail taken g spec hc hs hwidth hprecision =>
      simp only [ofSpecifier, Option.ite_none_right_eq_some, Option.some.injEq] at hp
      obtain ⟨hdeferred, hfront⟩ := hp
      rw [inlinePrecision_ofSpecifier]
      by_cases hw : spec.width = .deferred
      · rw [hw, Amount.absorbed] at hfront
        obtain ⟨first, rfl⟩ := List.length_eq_one_iff.mp (show front.length = 1 by omega)
        cases hgroup
        obtain ⟨g', hg, hg', hs'⟩ := hs.inline_precision_behind hw hdeferred n
        rw [← hg] at hwidth
        exact .specified slot hc hs' hwidth (by rw [hg']; exact hdigits)
      · have hzero : spec.width.absorbed = 0 := by
          cases hm : spec.width <;> first | rfl | exact absurd hm hw
        rw [hzero] at hfront
        have hnil := List.length_eq_zero_iff.mp (show front.length = 0 by omega)
        subst hnil
        cases hgroup
        obtain ⟨g', hg, hg', hs'⟩ := hs.inline_precision hw hdeferred n
        rw [← hg] at hwidth
        exact .specified slot (not_begins_colon_inlined hc n after) hs' hwidth
          (by rw [hg']; exact hdigits)

theorem renderBySlot_inlineWidth (h : p.renderBySlot values decorate = .ok piece)
    (hw : p.widthSlot = some j) (hj : Supply.resolveIn values j = .ok (.int n))
    (hz : n ≠ 0 → z = p.spec.zeroPad)
    (hslot : Supply.resolveIn values' p.slot = Supply.resolveIn values p.slot)
    (hprecision : ∀ i, p.precisionSlot = some i →
      Supply.resolveIn values' (i - 1) = Supply.resolveIn values i) :
    (p.inlineWidth z n).renderBySlot values' decorate = .ok piece := by
  obtain ⟨v, w, q, laid, hv, hwidth, hq, hlaid, rfl⟩ := renderBySlot_eq_ok_iff.mp h
  rw [hw] at hwidth
  obtain rfl := Supply.eq_of_amountAt hwidth hj
  refine renderBySlot_eq_ok_iff.mpr ⟨v, none, q, laid, hslot.trans hv, rfl,
    Supply.amountAt_move hq hprecision, ?_, rfl⟩
  rw [← hlaid]
  -- The specifiers differ in the zero flag if the width is zero, and not at all otherwise.
  by_cases hn : n = 0
  · subst hn
    have hbound : (p.spec.bind (some 0) q).width = .given 0 := rfl
    exact v.layOut_zeroPad hbound z decorate
  · obtain rfl := hz hn
    rfl

theorem renderBySlot_inlinePrecision (h : p.renderBySlot values decorate = .ok piece)
    (hp : p.precisionSlot = some j) (hj : Supply.resolveIn values j = .ok (.int n))
    (hslot : Supply.resolveIn values' p.slot = Supply.resolveIn values p.slot)
    (hwidth : ∀ i, p.widthSlot = some i →
      Supply.resolveIn values' i = Supply.resolveIn values i) :
    (p.inlinePrecision n).renderBySlot values' decorate = .ok piece := by
  obtain ⟨v, w, q, laid, hv, hw, hprecision, hlaid, rfl⟩ := renderBySlot_eq_ok_iff.mp h
  rw [hp] at hprecision
  obtain rfl := Supply.eq_of_amountAt hprecision hj
  have hw' := Supply.amountAt_move hw hwidth
  rw [Option.map_id'] at hw'
  exact renderBySlot_eq_ok_iff.mpr ⟨v, w, none, laid, hslot.trans hv, hw', rfl, hlaid, rfl⟩

/-- Once the amount of a slot is inline, the same piece is rendered from the remaining slots. -/
theorem Occupies.exists_inlined {front : List Text}
    (h : p.Occupies (front ++ before :: after :: following))
    (hposition : j = p.slot + 1 + front.length)
    (hj : p.widthSlot = some j ∨ p.precisionSlot = some j)
    (hn : n < Nat.pow 10 Numeral.longest) (hvalue : Supply.resolveIn values j = .ok (.int n))
    (hbefore : ∀ i ∈ p.slots, i < j → Supply.resolveIn values' i = Supply.resolveIn values i)
    (hbehind : ∀ i ∈ p.slots, j < i →
      Supply.resolveIn values' (i - 1) = Supply.resolveIn values i)
    (hpiece : p.renderBySlot values decorate = .ok piece) :
    ∃ p' : Placement, p'.slot = p.slot ∧
      p'.Occupies (front ++ before.inlined n after :: following) ∧
      p'.renderBySlot values' decorate = .ok piece := by
  have hconsecutive := h.consecutive
  have hslot := hbefore p.slot List.mem_cons_self (by omega)
  rcases hj with hj | hj
  · have hfirst := hconsecutive.width j hj
    have hnil := List.length_eq_zero_iff.mp (show front.length = 0 by omega)
    subst hnil
    obtain ⟨z, hz, hoccupies⟩ := h.inlineWidth (by rw [hj]; rfl) hn
    refine ⟨p.inlineWidth z n, rfl, hoccupies,
      renderBySlot_inlineWidth hpiece hj hvalue hz hslot ?_⟩
    intro i hi
    have hnext := hconsecutive.precision i hi
    rw [hj, Option.isSome_some, if_pos rfl] at hnext
    exact hbehind i (mem_slots_of_precision hi) (by omega)
  · refine ⟨p.inlinePrecision n, rfl, h.inlinePrecision (hj.trans (congrArg some hposition)) hn,
      renderBySlot_inlinePrecision hpiece hj hvalue hslot ?_⟩
    intro i hi
    have hnext := hconsecutive.width i hi
    have hlast := hconsecutive.precision j hj
    rw [hi, Option.isSome_some, if_pos rfl] at hlast
    exact hbefore i (mem_slots_of_width hi) (by omega)

end Placement

theorem exists_of_append_eq {α : Type} {l group rest front back : List α} {x y : α}
    (h : front ++ x :: y :: back = l ++ (group ++ rest)) (hfront : l.length ≤ front.length)
    (hgroup : front.length + 2 ≤ l.length + group.length) :
    ∃ inner following, front = l ++ inner ∧ group = inner ++ x :: y :: following ∧
      back = following ++ rest := by
  have hl : l <+: front :=
    List.prefix_of_prefix_length_le ⟨group ++ rest, h.symm⟩ ⟨x :: y :: back, rfl⟩ hfront
  obtain ⟨inner, rfl⟩ := hl
  rw [List.append_assoc] at h
  have hinner : inner ++ [x, y] ++ back = group ++ rest := by
    rw [List.append_assoc]
    exact List.append_cancel_left h
  have hlength : (inner ++ [x, y]).length ≤ group.length := by
    rw [List.length_append] at hgroup ⊢
    exact Nat.le_of_add_le_add_left ((Nat.add_assoc _ _ _).symm.trans_le hgroup)
  obtain ⟨following, rfl⟩ :=
    List.prefix_of_prefix_length_le ⟨back, hinner⟩ ⟨rest, rfl⟩ hlength
  rw [List.append_assoc (inner ++ [x, y])] at hinner
  exact ⟨inner, following, rfl, List.append_assoc _ _ _, List.append_cancel_left hinner⟩

namespace Supply

variable {vs ws : List Value} {v : Value} {i : Int}

theorem Direct.resolveIn_before (h : Direct (vs ++ v :: ws)) (hnonneg : 0 ≤ i)
    (hi : i < vs.length) : resolveIn (vs ++ ws) i = resolveIn (vs ++ v :: ws) i := by
  obtain ⟨m, rfl⟩ := Int.eq_ofNat_of_zero_le hnonneg
  have hm : m < vs.length := Int.ofNat_lt.mp hi
  apply h.resolveIn_congr
  · rw [List.length_append]
    omega
  · rw [List.getElem?_append_left hm, List.getElem?_append_left hm]

theorem Direct.resolveIn_behind (h : Direct (vs ++ v :: ws)) (hi : vs.length < i)
    (hlt : i < (vs ++ v :: ws).length) :
    resolveIn (vs ++ ws) (i - 1) = resolveIn (vs ++ v :: ws) i := by
  obtain ⟨m, rfl⟩ : ∃ m : Nat, i = (m + 1 : Nat) := ⟨(i - 1).toNat, by omega⟩
  have hm : ((m + 1 : Nat) : Int) - 1 = m := by omega
  rw [hm]
  apply h.resolveIn_congr (Int.ofNat_lt.mp hlt)
  have hsub : m + 1 - vs.length = m - vs.length + 1 := by omega
  rw [List.getElem?_append_right (by omega), List.getElem?_append_right (by omega), hsub,
    List.getElem?_cons_succ]

theorem Direct.resolveIn_middle (h : Direct (vs ++ v :: ws)) :
    resolveIn (vs ++ v :: ws) vs.length = .ok v := by
  have hv : (vs ++ v :: ws)[vs.length]? = some v := by simp
  exact resolveIn_of_getElem? hv (h v (by simp))

end Supply

namespace Blueprint
open Placement

variable {head before after : Text} {literals front back : List Text}
variable {ps ps₁ ps₂ : List Placement} {p : Placement} {m n : Nat}
variable {vs ws : List Value} {v : Value} {decorate : Bool} {r : Rendered}

theorem Divided.pieces_before (h : Divided 0 literals ps) (hdirect : Supply.Direct (vs ++ v :: ws))
    (hr : Pieces (vs ++ v :: ws) decorate ps r) (hlength : literals.length ≤ vs.length) :
    Pieces (vs ++ ws) decorate ps r := by
  have hpieces := hr.of_divided h 0 (vs ++ ws) (by
    intro k hk
    exact hdirect.resolveIn_before (Int.natCast_nonneg _) (by omega))
  rwa [Int.sub_self, map_shift_zero] at hpieces

theorem Divided.pieces_behind (h : Divided n literals ps)
    (hdirect : Supply.Direct (vs ++ v :: ws)) (hr : Pieces (vs ++ v :: ws) decorate ps r)
    (hn : n = m + 1) (hm : vs.length ≤ m) (hlength : n + literals.length ≤ (vs ++ v :: ws).length) :
    Pieces (vs ++ ws) decorate (ps.map (Placement.shift (m - n))) r := by
  apply hr.of_divided h
  intro k hk
  rw [← hdirect.resolveIn_behind (by omega) (by omega)]
  congr 1
  omega

/-- The placements before the one with the amount stay as they are, and those behind it move up. -/
theorem Divided.exists_inlined (h : Divided 0 literals (ps₁ ++ p :: ps₂))
    (hr : Pieces (vs ++ .int n :: ws) decorate (ps₁ ++ p :: ps₂) r)
    (hliterals : front ++ before :: after :: back = head :: literals)
    (hlength : literals.length = (vs ++ .int n :: ws).length) (hfront : front.length = vs.length)
    (hn : n < Nat.pow 10 Numeral.longest) (hdirect : Supply.Direct (vs ++ .int n :: ws))
    (hslot : p.widthSlot = some (vs.length : Int) ∨ p.precisionSlot = some (vs.length : Int)) :
    ∃ literals' ps', front ++ before.inlined n after :: back = head :: literals' ∧
      Divided 0 literals' ps' ∧ Pieces (vs ++ ws) decorate ps' r := by
  obtain ⟨l₁, l₂, rfl, h₁, h₂⟩ := h.exists_of_append
  obtain ⟨r₁, r₂, hr₁, hr₂, rfl⟩ := hr.exists_of_append
  cases h₂ with
  | @cons _ _ group rest _ hpslot hoccupies hrest =>
      cases hr₂ with
      | cons hpiece hr₂ =>
          obtain ⟨k, hposition, hk⟩ := hoccupies.consecutive.exists_position hslot
          rw [← hoccupies.length_eq] at hk
          have hcons : (head :: l₁).length = l₁.length + 1 := rfl
          obtain ⟨inner, following, rfl, rfl, rfl⟩ :=
            exists_of_append_eq (l := head :: l₁) hliterals (by omega) (by omega)
          rw [List.length_append] at hfront
          have hinner : (vs.length : Int) = p.slot + 1 + inner.length := by omega
          have hmem : p ∈ ps₁ ++ p :: ps₂ := List.mem_append_right _ List.mem_cons_self
          have hslots : ∀ i ∈ p.slots, 0 ≤ i ∧ i < (vs ++ .int n :: ws).length := by
            intro i hi
            obtain ⟨k, hk, rfl⟩ := h.exists_of_mem_slots hmem hi
            omega
          obtain ⟨p', hp'slot, hp', hpiece'⟩ := hoccupies.exists_inlined hinner hslot hn
            hdirect.resolveIn_middle (fun i hi => hdirect.resolveIn_before (hslots i hi).1)
            (fun i hi hlt => hdirect.resolveIn_behind hlt (hslots i hi).2) hpiece
          have hgroup : 0 + l₁.length + (inner ++ before :: after :: following).length =
              0 + l₁.length + (inner ++ before.inlined n after :: following).length + 1 := by
            rw [List.length_append, List.length_append]
            rfl
          rw [List.length_append, List.length_append] at hlength
          have hr₁' := h₁.pieces_before hdirect hr₁ (by omega)
          have hr₂' := hrest.pieces_behind hdirect hr₂ hgroup (by omega) (by omega)
          refine ⟨_, _, ?_, h₁.append (.cons (hp'slot.trans hpslot) hp' (hrest.shift _)),
            hr₁'.append (.cons hpiece' hr₂')⟩
          simp

end Blueprint

namespace Template
open Placement

variable {front back : List Text} {before after : Text} {vs ws : List Value} {n : Nat}
variable {b : Blueprint} {p : Placement} {decorate : Bool} {o : Rendered}

theorem render_inlined (hn : n < Nat.pow 10 Numeral.longest) (hfront : front.length = vs.length)
    (h : (front ++ before :: after :: back).length = (vs ++ .int n :: ws).length + 1)
    (hdirect : Supply.Direct (vs ++ .int n :: ws))
    (hb : Blueprint.ofSegments (front ++ before :: after :: back) = .ok b)
    (hp : p ∈ b.placements)
    (hslot : p.widthSlot = some (vs.length : Int) ∨ p.precisionSlot = some (vs.length : Int))
    (ho : (⟨_, _, h⟩ : Template).render decorate = .ok o) :
    ∃ h', (⟨front ++ before.inlined n after :: back, vs ++ ws, h'⟩ : Template).render decorate =
      .ok o := by
  obtain ⟨b', r, hb', hr, rfl⟩ := render_eq_ok_iff.mp ho
  cases hb'.symm.trans hb
  obtain ⟨literals, hsegments, hdivided, hlength, -⟩ := exists_divided hb'
  obtain ⟨ps₁, ps₂, hps⟩ := List.append_of_mem hp
  rw [hps] at hdivided hr
  obtain ⟨literals', ps', hliterals, hdivided', hr'⟩ :=
    hdivided.exists_inlined hr hsegments hlength hfront hn hdirect hslot
  have hb' : Blueprint.ofSegments (front ++ before.inlined n after :: back) =
      .ok ⟨b.head, ps', literals'.length⟩ := by
    rw [hliterals]
    exact Blueprint.ofSegments_eq_ok_iff.mpr ⟨ps', hdivided', rfl⟩
  refine ⟨?_, render_eq_ok_iff.mpr ⟨_, r, hb', hr', rfl⟩⟩
  simp only [List.length_append, List.length_cons] at h ⊢
  omega

end Template

/-- Take a template without references that renders, and a slot in it that supplies a width or a
precision with the number `n`. If `n` is written between the two literals of this slot, which thus
become one, and the slot is left out, then the template renders to the same in both forms. -/
theorem Renderer.renderForms_inlined {colors caching : Bool} {capacity : Int} {r : Renderer}
    (hr : Renderer.make colors caching capacity = .ok r) (calls calls' : List Renderer.Call)
    (front : List Text) (before after : Text) (back : List Text) (vs ws : List Value) {n : Nat}
    (hn : n < Nat.pow 10 Numeral.longest) (hfront : front.length = vs.length)
    (h : (front ++ before :: after :: back).length = (vs ++ .int n :: ws).length + 1)
    (hdirect : Supply.Direct (vs ++ .int n :: ws)) {b : Blueprint} {p : Placement}
    (hb : Blueprint.ofSegments (front ++ before :: after :: back) = .ok b)
    (hp : p ∈ b.placements)
    (hslot : p.widthSlot = some (vs.length : Int) ∨ p.precisionSlot = some (vs.length : Int))
    {decorate : Bool} {o : Rendered}
    (ho : ((r.after calls).renderForms ⟨_, _, h⟩ decorate).1 = .ok o) :
    ∃ h', ((r.after calls').renderForms
      ⟨front ++ before.inlined n after :: back, vs ++ ws, h'⟩ decorate).1 = .ok o := by
  have hfaithful : ∀ calls, (r.after calls).Faithful := (faithful_make hr).after
  rw [((hfaithful calls).renderForms _ decorate).1] at ho
  obtain ⟨h', ho'⟩ := Template.render_inlined hn hfront h hdirect hb hp hslot ho
  exact ⟨h', by rw [((hfaithful calls').renderForms _ decorate).1, ho']⟩

/-- A width of zero, which is read as the zero flag, and a precision that stays deferred. -/
theorem Renderer.renderForms_inlined_zero :
    ∃ r, Renderer.make false true 1 = .ok r ∧
      (r.renderForms ⟨[[], [':'], ['.'], "; m".toList], [.int 7, .int 0, .int 2], rfl⟩ true).1 =
        .ok (.of "7.00 m".toList) ∧
      (r.renderForms ⟨[[], ":0.".toList, "; m".toList], [.int 7, .int 2], rfl⟩ true).1 =
        .ok (.of "7.00 m".toList) := by
  obtain ⟨r, hr⟩ : ∃ r, Renderer.make false true 1 = .ok r := ⟨_, rfl⟩
  have hb : Blueprint.ofSegments [[], [':'], ['.'], "; m".toList] = .ok ⟨[],
      [.ofSpecifier 0 { width := .deferred, precision := .deferred } " m".toList], 3⟩ := rfl
  have ho : ((r.after []).renderForms ⟨[[], [':'], ['.'], "; m".toList],
      [.int 7, .int 0, .int 2], rfl⟩ true).1 = .ok (.of "7.00 m".toList) := by
    cases hr
    rfl
  have hdirect : Supply.Direct [.int 7, .int 0, .int 2] := by simp [Supply.Direct]
  have hn : 0 < Nat.pow 10 Numeral.longest := Numeral.pow_ten_le (Nat.zero_le Numeral.longest)
  obtain ⟨_, hinlined⟩ := Renderer.renderForms_inlined hr [] [] [[]] [':'] ['.'] ["; m".toList]
    [.int 7] [.int 2] hn rfl rfl hdirect hb List.mem_cons_self (.inl rfl) ho
  exact ⟨r, hr, ho, hinlined⟩

end SlotText
