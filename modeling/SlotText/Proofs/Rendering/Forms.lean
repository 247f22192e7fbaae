import SlotText.Proofs.Rendering.Pieces
import SlotText.Proofs.Renderer.Uncached
import SlotText.Proofs.Style.Shown
import SlotText.Proofs.Value.Padded

/-!
# The two forms of a rendering

A template is rendered with decoration or without it. Decoration changes nothing but what a dump
looks like: the other steps measure and change the plain form, and do the same to both. So rendering
without decoration is rendering with it and keeping the plain form, also where it fails. Slot by
slot the two forms are the same text, apart from a dump, which has the same fill around it in both.
So the decorated form shows the plain one, and stripping the styles off takes it back to it.
-/
namespace SlotText

/-- The plain form in place of both. -/
def Rendered.undecorated (r : Rendered) : Rendered := .of r.plain

theorem Rendered.align_undecorated (r : Rendered) (width : Int) (a : Alignment) (fill : Text) :
    r.undecorated.align width a fill = (r.align width a fill).map undecorated := by
  have hlength : r.undecorated.length = r.length := rfl
  unfold align
  simp only [hlength]
  split
  · rfl
  · cases a with
    | left =>
        dsimp only
        rw [Outcome.map_bind]
        rfl
    | center =>
        dsimp only
        rw [Outcome.map_bind]
        refine Outcome.bind_congr fun left => ?_
        rw [Outcome.map_bind]
        rfl
    | right =>
        dsimp only
        rw [Outcome.map_bind]
        rfl

namespace Value

variable {v : Value} {spec : Specifier} {decorate : Bool} {r : Rendered}

/-- Only a dump has a decoration. -/
theorem convert_of_ne_inspection (v : Value) (h : spec.conversion ≠ .inspection) :
    ∃ o : Outcome Text, ∀ decorate, v.convert spec decorate = o.map .of := by
  unfold convert
  simp only [if_neg h]
  split
  · split
    · exact ⟨_, fun _ => rfl⟩
    · exact ⟨_, fun _ => rfl⟩
  · exact ⟨_, fun _ => rfl⟩

theorem convert_inspection (v : Value) (h : spec.conversion = .inspection) (decorate : Bool) :
    v.convert spec decorate = .ok (v.inspect spec.pretty decorate) := if_pos h

theorem convert_undecorated (v : Value) (spec : Specifier) :
    v.convert spec false = (v.convert spec true).map .undecorated := by
  by_cases h : spec.conversion = .inspection
  · rw [convert_inspection v h, convert_inspection v h]
    rfl
  · obtain ⟨o, ho⟩ := convert_of_ne_inspection v h
    rw [ho, ho]
    cases o <;> rfl

theorem layOut_undecorated (v : Value) (spec : Specifier) :
    v.layOut spec false = (v.layOut spec true).map .undecorated := by
  rw [layOut, layOut, convert_undecorated, Outcome.bind_map, Outcome.map_bind]
  refine Outcome.bind_congr fun r => ?_
  split
  · rw [Outcome.map_bind]
    refine Outcome.bind_congr fun shaped => ?_
    split
    · rfl
    · rw [← Rendered.align_undecorated]
      rfl
  · exact r.align_undecorated _ _ _

end Value

theorem Placement.render_undecorated (p : Placement) (s : Supply) :
    p.render false s = (p.render true s).map fun x => (x.1.undecorated, x.2) := by
  unfold render
  rw [Outcome.map_bind]
  refine Outcome.bind_congr ?_
  rintro ⟨⟨slot, v⟩, s⟩
  rw [Outcome.map_bind]
  refine Outcome.bind_congr ?_
  rintro ⟨width, s⟩
  rw [Outcome.map_bind]
  refine Outcome.bind_congr ?_
  rintro ⟨precision, s⟩
  dsimp only
  rw [Outcome.map_bind, Value.layOut_undecorated, Outcome.bind_map]
  rfl

theorem Blueprint.renderPlacements_undecorated (ps : List Placement) (s : Supply) :
    renderPlacements false ps s = (renderPlacements true ps s).map .undecorated := by
  induction ps generalizing s with
  | nil => rfl
  | cons p ps ih =>
      rw [renderPlacements, renderPlacements, Placement.render_undecorated, Outcome.bind_map,
        Outcome.map_bind]
      refine Outcome.bind_congr ?_
      rintro ⟨r, s⟩
      dsimp only
      rw [ih, Outcome.bind_map, Outcome.map_bind]
      rfl

theorem Template.render_undecorated (t : Template) :
    t.render false = (t.render true).map .undecorated := by
  rw [render, render, Outcome.map_bind]
  refine Outcome.bind_congr fun b => ?_
  rw [Blueprint.render, Blueprint.render, Blueprint.renderPlacements_undecorated,
    Outcome.bind_map, Outcome.map_bind]
  rfl

/-- Only a dump has two forms. -/
theorem Value.eq_of_layOut (spec : Specifier) (hk : spec.conversion ≠ .inspection) {v : Value}
    {decorate : Bool} {r : Rendered} (h : v.layOut spec decorate = .ok r) :
    r = .of r.plain := by
  have heffective : spec.effective = spec := if_neg hk
  obtain ⟨o, ho⟩ := convert_of_ne_inspection v hk
  have hsame : v.layOut spec decorate = v.layOut spec false := by
    rw [layOut, layOut, heffective, ho, ho]
  rw [hsame, layOut_undecorated] at h
  obtain ⟨r', -, rfl⟩ := Outcome.map_eq_ok.mp h
  rfl

namespace Placement

variable {p : Placement} {ps : List Placement} {values : List Value} {piece r : Rendered}

/-- What the value of a slot is laid out as: the same text in both forms, or a dump and the dump
highlighted, with the same copies of the fill before it and the same behind it. -/
inductive LaidOut (values : List Value) (p : Placement) : Rendered → Prop
  | same (s : Text) : p.spec.conversion ≠ .inspection → LaidOut values p (.of s)
  | dump {v : Value} (left right : Nat) : p.spec.conversion = .inspection →
      Supply.resolveIn values p.slot = .ok v →
      LaidOut values p
        ⟨p.spec.fill.times left ++ v.dump p.spec.pretty ++ p.spec.fill.times right,
          p.spec.fill.times left ++ (v.dump p.spec.pretty).highlighted ++ p.spec.fill.times right⟩

theorem exists_laidOut (h : p.renderBySlot values true = .ok piece) :
    ∃ laid, LaidOut values p laid ∧ piece = laid.append (.of p.tail) := by
  obtain ⟨v, w, q, laid, hv, -, -, hlaid, rfl⟩ := renderBySlot_eq_ok_iff.mp h
  refine ⟨laid, ?_, rfl⟩
  by_cases hk : p.spec.conversion = .inspection
  · rw [Value.layOut_inspection (p.spec.bind w q) hk] at hlaid
    rw [Rendered.eq_pad_of_align hlaid]
    exact .dump _ _ hk hv
  · rw [Value.eq_of_layOut (p.spec.bind w q) hk hlaid]
    exact .same _ hk

/-- Both forms of the pieces are the slots of that form, each with its tail behind it. -/
theorem Pieces.exists_laidOut (h : Pieces values true ps r) :
    ∃ laid, List.Forall₂ (LaidOut values) ps laid ∧
      r.plain = (List.zipWith (fun p l => l.plain ++ p.tail) ps laid).flatten ∧
      r.decorated = (List.zipWith (fun p l => l.decorated ++ p.tail) ps laid).flatten := by
  induction h with
  | nil => exact ⟨[], .nil, rfl, rfl⟩
  | cons hp _ ih =>
      obtain ⟨laid, hlaid, rfl⟩ := Placement.exists_laidOut hp
      obtain ⟨ls, hls, hplain, hdecorated⟩ := ih
      refine ⟨laid :: ls, .cons hlaid hls, ?_, ?_⟩
      · rw [Rendered.append, hplain]
        rfl
      · rw [Rendered.append, hdecorated]
        rfl

end Placement

namespace Placement

variable {p : Placement} {ps : List Placement} {values : List Value} {r : Rendered}

theorem LaidOut.shows (h : LaidOut values p r) : r.decorated.Shows r.plain := by
  cases h with
  | same s => exact Text.shows_self s
  | @dump v left right _ _ =>
      have hdump := Text.shows_highlighted (v.dump p.spec.pretty)
      exact ((Text.shows_self _).append hdump).append (Text.shows_self _)

theorem Pieces.shows (h : Pieces values true ps r) : r.decorated.Shows r.plain := by
  induction h with
  | nil => exact .nil
  | @cons p ps piece r hp _ ih =>
      obtain ⟨laid, hlaid, rfl⟩ := Placement.exists_laidOut hp
      exact (hlaid.shows.append (Text.shows_self p.tail)).append ih

end Placement

/-- Stripping the decorated form gives the plain form, provided that the plain form has no control
characters of its own. Widths measured on the decorated form are then those of the plain one. -/
theorem Renderer.stripStyles_decorated {colors caching : Bool} {capacity : Int} {r : Renderer}
    (hr : Renderer.make colors caching capacity = .ok r) (calls : List Renderer.Call)
    {t : Template} {o : Rendered} (ho : ((r.after calls).renderPair t).1 = .ok o)
    (hplain : o.plain.WithoutControls) :
    Text.stripStyles o.decorated = o.plain ∧ Text.trueLength o.decorated = o.plain.length := by
  have hrender : t.render true = .ok o := (renderForms_eq_render hr calls t true).symm.trans ho
  obtain ⟨b, pieces, -, hpieces, rfl⟩ := Template.render_eq_ok_iff.mp hrender
  have hshows : (b.head ++ pieces.decorated).Shows (b.head ++ pieces.plain) :=
    (Text.shows_self b.head).append hpieces.shows
  have hstrip := hshows.stripStyles hplain
  exact ⟨hstrip, congrArg List.length hstrip⟩

/-- Text of the template that looks like parts of a control sequence stands next to the codes. -/
theorem Renderer.stripStyles_decorated_brackets :
    ∃ r, Renderer.make false true 1 = .ok r ∧
      let o : Rendered := ⟨"[0mm1***;[m\n".toList, "[0mm\x1b[1;36m1\x1b[0m***;[m\n".toList⟩
      (r.renderPair ⟨["[0mm".toList, ":*<4?;;[m\n".toList], [.int 1], rfl⟩).1 = .ok o ∧
        o.plain.WithoutControls ∧ Text.stripStyles o.decorated = o.plain := by
  obtain ⟨r, hr⟩ : ∃ r, Renderer.make false true 1 = .ok r := ⟨_, rfl⟩
  let t : Template := ⟨["[0mm".toList, ":*<4?;;[m\n".toList], [.int 1], rfl⟩
  let o : Rendered := ⟨"[0mm1***;[m\n".toList, "[0mm\x1b[1;36m1\x1b[0m***;[m\n".toList⟩
  have ho : ((r.after []).renderPair t).1 = .ok o := by
    cases hr
    decide +kernel
  have hplain : o.plain.WithoutControls := by decide
  exact ⟨r, hr, ho, hplain, (Renderer.stripStyles_decorated hr [] ho hplain).1⟩

end SlotText
