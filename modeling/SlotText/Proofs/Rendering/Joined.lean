import SlotText.Proofs.Template.Joined
import SlotText.Proofs.Rendering.Pieces
import SlotText.Proofs.Specifier.Written

/-!
# Rendering joined templates

Joined templates render to the two renderings, one behind the other. The pieces of the first
template stay as they are, except that the head of the second one is added to the last of them, and
the pieces of the second have moved to the slots behind those of the first.
-/
namespace SlotText

namespace Placement

variable {p : Placement} {ps : List Placement} {values : List Value} {decorate : Bool}
variable {piece r : Rendered}

theorem renderBySlot_extend (h : p.renderBySlot values decorate = .ok piece) (s : Text) :
    (p.extend s).renderBySlot values decorate = .ok (piece.append (.of s)) := by
  obtain ⟨v, w, q, laid, hv, hw, hq, hlaid, rfl⟩ := renderBySlot_eq_ok_iff.mp h
  exact renderBySlot_eq_ok_iff.mpr ⟨v, w, q, laid, hv, hw, hq, hlaid, Rendered.append_assoc _ _ _⟩

theorem Pieces.extend (h : Pieces values decorate ps r) (hne : ps ≠ []) (s : Text) :
    Pieces values decorate (ps.modifyLast (Placement.extend s)) (r.append (.of s)) := by
  rcases List.eq_nil_or_concat ps with rfl | ⟨ps, p, rfl⟩
  · exact absurd rfl hne
  · rw [List.concat_eq_append] at h ⊢
    obtain ⟨r₁, r₂, h₁, h₂, rfl⟩ := h.exists_of_append
    rw [List.modifyLast_concat, Rendered.append_assoc]
    cases h₂ with
    | cons hp hnil =>
        cases hnil
        have hlast := Pieces.cons (renderBySlot_extend hp s) .nil
        rw [Rendered.append_of_nil] at hlast ⊢
        exact h₁.append hlast

end Placement

namespace Template

variable {a b : Template} {decorate : Bool} {x y : Rendered}

theorem render_join (ha : Supply.Direct a.values) (hb : Supply.Direct b.values)
    (hsealed : a.Sealed) (hs : ¬(b.segments.headD []).Begins Grammar.IsAlignment)
    (hx : a.render decorate = .ok x) (hy : b.render decorate = .ok y) :
    (∃ ba bb, Blueprint.ofSegments a.segments = .ok ba ∧ Blueprint.ofSegments b.segments = .ok bb ∧
      Blueprint.ofSegments (a.join b).segments = .ok (ba.join bb)) ∧
    (a.join b).render decorate = .ok (x.append y) := by
  obtain ⟨ba, ra, hba, hra, rfl⟩ := render_eq_ok_iff.mp hx
  obtain ⟨bb, rb, hbb, hrb, rfl⟩ := render_eq_ok_iff.mp hy
  obtain ⟨literals, -, hps, hlength, hcount⟩ := exists_divided hba
  obtain ⟨literals', hsegments, hqs, hlength', -⟩ := exists_divided hbb
  rw [hsegments] at hs
  have hjoin : Blueprint.ofSegments (a.join b).segments = .ok (ba.join bb) :=
    ofSegments_joinSegments hba hbb (hsealed ba hba) hs
  have hleft : Placement.Pieces (a.values ++ b.values) decorate ba.placements ra := by
    have h := hra.of_divided hps 0 (a.values ++ b.values) (by
      intro k hk
      apply ha.resolveIn_congr (by omega)
      rw [Nat.zero_add, List.getElem?_append_left (by omega)])
    rwa [Int.sub_self, Placement.map_shift_zero] at h
  have hright : Placement.Pieces (a.values ++ b.values) decorate
      (bb.placements.map (Placement.shift ba.slotCount)) rb := by
    have h := hrb.of_divided hqs ba.slotCount (a.values ++ b.values) (by
      intro k hk
      apply hb.resolveIn_congr (by omega)
      rw [Nat.zero_add, hcount, List.getElem?_append_right (by omega),
        Nat.add_sub_cancel_left])
    rwa [Int.natCast_zero, Int.sub_zero] at h
  refine ⟨⟨ba, bb, hba, hbb, hjoin⟩, ?_⟩
  by_cases hne : ba.placements = []
  · rw [hne] at hra
    cases hra
    refine render_eq_ok_iff.mpr ⟨_, rb, hjoin, ?_, ?_⟩
    · rw [Blueprint.join, hne]
      exact hright
    · rw [Blueprint.join, if_pos hne, Rendered.append_of_nil, ← Rendered.append_assoc]
      rfl
  · refine render_eq_ok_iff.mpr ⟨_, _, hjoin, (hleft.extend hne bb.head).append hright, ?_⟩
    rw [Blueprint.join, if_neg hne]
    simp only [Rendered.append_assoc]

end Template

/-- If two templates without references render, and the first one is sealed, then they render as one
to what they render to by themselves, in both forms. A head that begins with an alignment sign is
excluded, since the last character of the first template could become its fill. -/
theorem Renderer.renderForms_join {colors caching : Bool} {capacity : Int} {r : Renderer}
    (hr : Renderer.make colors caching capacity = .ok r) (calls calls' calls'' : List Renderer.Call)
    {a b : Template} {decorate : Bool} {x y : Rendered}
    (ha : Supply.Direct a.values) (hb : Supply.Direct b.values)
    (hsealed : a.Sealed) (hs : ¬(b.segments.headD []).Begins Grammar.IsAlignment)
    (hx : ((r.after calls).renderForms a decorate).1 = .ok x)
    (hy : ((r.after calls').renderForms b decorate).1 = .ok y) :
    (∃ ba bb, Blueprint.ofSegments a.segments = .ok ba ∧ Blueprint.ofSegments b.segments = .ok bb ∧
      Blueprint.ofSegments (a.join b).segments = .ok (ba.join bb)) ∧
    ((r.after calls'').renderForms (a.join b) decorate).1 = .ok (x.append y) := by
  have hfaithful : ∀ calls, (r.after calls).Faithful := (faithful_make hr).after
  rw [((hfaithful calls).renderForms a decorate).1] at hx
  rw [((hfaithful calls').renderForms b decorate).1] at hy
  rw [((hfaithful calls'').renderForms (a.join b) decorate).1]
  exact Template.render_join ha hb hsealed hs hx hy

/-- The specifier with a supplied width ends with a semicolon, and the head has an alignment sign
in second place. -/
theorem Renderer.renderForms_join_width :
    ∃ r, Renderer.make false true 1 = .ok r ∧
      let a : Template := ⟨[[], [':'], [';']], [.text ['a'], .int 3], rfl⟩
      let b : Template := ⟨["y>".toList, ":x z".toList], [.int 255], rfl⟩
      (a.join b).segments = [[], [':'], ";y>".toList, ":x z".toList] ∧
        (r.renderForms (a.join b) true).1 = .ok (.of "  ay>ff z".toList) := by
  obtain ⟨r, hr⟩ : ∃ r, Renderer.make false true 1 = .ok r := ⟨_, rfl⟩
  refine ⟨r, hr, rfl, ?_⟩
  have hsealed : Template.Sealed ⟨[[], [':'], [';']], [.text ['a'], .int 3], rfl⟩ := by
    intro b hb p hp
    cases hb
    cases hp
    have hclose : ¬Text.Begins Grammar.IsLetter [';'] :=
      (Grammar.later_close 6 (Nat.le_refl 6) []).not_begins fun c hc =>
        Nat.le_of_eq (Grammar.place_letter hc)
    have hs : Grammar.Specified [':'] [[';']] { close := [';'] } { width := .deferred } [] [] :=
      .intro rfl (.absent id id) (.absent id) (.absent id) (.absent id) (.deferred [';'] [])
        (.absent (by decide)) rfl rfl (.absent hclose) (.semicolon [])
    exact .ended hs (List.cons_ne_nil _ _)
  have hx : ((r.after []).renderForms ⟨[[], [':'], [';']], [.text ['a'], .int 3], rfl⟩ true).1 =
      .ok (.of "  a".toList) := by
    cases hr
    rfl
  have hy : ((r.after []).renderForms ⟨["y>".toList, ":x z".toList], [.int 255], rfl⟩ true).1 =
      .ok (.of "y>ff z".toList) := by
    cases hr
    rfl
  have ha : Supply.Direct [.text ['a'], .int 3] := by simp [Supply.Direct]
  have hb : Supply.Direct [.int 255] := by simp [Supply.Direct]
  refine (Renderer.renderForms_join hr [] [] [] ha hb hsealed ?_ hx hy).2
  intro h
  obtain ⟨sign, hsign⟩ : Grammar.IsAlignment 'y' := h
  cases sign <;> exact absurd hsign (by decide)

end SlotText
