import SlotText.Proofs.Rendering.Pieces
import SlotText.Proofs.Value.Writable

/-!
# Supplied amounts

A width or a precision that is deferred is the value of a slot. Rendering comes to that slot after
the placements before it have been laid out and the value, and the width if a precision is wanted,
has been taken. It goes on if the slot holds a whole number that is not negative, however large. It
is refused for anything else, with the slot in the diagnostic. But the diagnostic shows the value,
so a value that cannot be shown is not reported as a bad amount: what showing it fails with takes
the place of the diagnostic.
-/
namespace SlotText

/-- An amount that a slot can supply. -/
inductive Dimension where
  | width
  | precision
  deriving DecidableEq, Repr

namespace Dimension

/-- The slot that supplies the amount, if it is deferred. -/
def slot? : Dimension → Placement → Option Int
  | width, p => p.widthSlot
  | precision, p => p.precisionSlot

def refusal : Dimension → Index → Text → Outcome Diagnostic
  | width => Diagnostic.invalidWidth
  | precision => Diagnostic.invalidPrecision

def category : Dimension → Category
  | width => .invalidWidth
  | precision => .invalidPrecision

theorem exists_refusal (d : Dimension) (i : Nat) (s : Text) :
    ∃ diagnostic, d.refusal (.position i) s = .ok diagnostic ∧
      diagnostic.code.category = d.category ∧ diagnostic.slot = some i ∧
      diagnostic.offset = none := by
  cases d with
  | width => exact ⟨_, rfl, rfl, rfl, rfl⟩
  | precision => exact ⟨_, rfl, rfl, rfl, rfl⟩

theorem mem_slots {d : Dimension} {p : Placement} {i : Int} (h : d.slot? p = some i) :
    i ∈ p.slots := by
  cases d with
  | width => exact Placement.mem_slots_of_width h
  | precision => exact Placement.mem_slots_of_precision h

end Dimension

namespace Value

variable {v : Value} {refusal : Index → Text → Outcome Diagnostic} {i : Int}

theorem toAmount_natCast (n : Nat) : (int n).toAmount i refusal = .ok (n : Int) :=
  Supply.toAmount_eq_ok_iff.mpr ⟨rfl, Int.natCast_nonneg n⟩

/-- Any other value is shown first, and then refused. -/
theorem toAmount_of_ne (h : ∀ n : Nat, v ≠ .int n) :
    v.toAmount i refusal = (v.shown >>= fun s => Outcome.refuse (refusal (.position i) s)) := by
  have hnone : v.amount? = .none := by
    cases hamount : v.amount? with
    | none => rfl
    | some k =>
        obtain ⟨rfl, hk⟩ := Supply.eq_int_of_amount? hamount
        obtain ⟨n, rfl⟩ := Int.eq_ofNat_of_zero_le hk
        exact absurd rfl (h n)
  rw [toAmount, hnone]

end Value

theorem Supply.amountAt_some (values : List Value) (i : Int)
    (refusal : Index → Text → Outcome Diagnostic) :
    amountAt values (some i) refusal = (resolveIn values i >>= fun v =>
      v.toAmount i refusal >>= fun n => .ok (some n)) := rfl

namespace Placement

variable {p : Placement} {values : List Value} {decorate : Bool} {d : Dimension}
variable {goOn : Int → Outcome Rendered}

/-- All that is needed before the slot of an amount has been taken. With a number from there the
piece of the placement is what `goOn` says. -/
inductive Reaches (p : Placement) (values : List Value) (decorate : Bool) :
    Dimension → (Int → Outcome Rendered) → Prop
  | width {v : Value} : Supply.resolveIn values p.slot = .ok v →
      Reaches p values decorate .width fun n => do
        let q ← Supply.amountAt values p.precisionSlot Diagnostic.invalidPrecision
        let r ← v.layOut (p.spec.bind (some n) q) decorate
        return r.append (.of p.tail)
  | precision {v : Value} {w : Option Int} : Supply.resolveIn values p.slot = .ok v →
      Supply.amountAt values p.widthSlot Diagnostic.invalidWidth = .ok w →
      Reaches p values decorate .precision fun n => do
        let r ← v.layOut (p.spec.bind w (some n)) decorate
        return r.append (.of p.tail)

theorem Reaches.renderBySlot_eq (h : p.Reaches values decorate d goOn) {i : Int}
    (hi : d.slot? p = some i) :
    p.renderBySlot values decorate = (Supply.resolveIn values i >>= fun v =>
      v.toAmount i d.refusal >>= goOn) := by
  cases h with
  | width hv =>
      have hslot : p.widthSlot = some i := hi
      simp only [renderBySlot, hv, hslot, Supply.amountAt_some, Outcome.ok_bind, bind_assoc]
      rfl
  | precision hv hw =>
      have hslot : p.precisionSlot = some i := hi
      simp only [renderBySlot, hv, hw, hslot, Supply.amountAt_some, Outcome.ok_bind, bind_assoc]
      rfl

/-- The pieces of some placements behind a front. -/
def renderOnto (values : List Value) (decorate : Bool) (front : Rendered) (ps : List Placement) :
    Outcome Rendered :=
  ps.foldlM (fun r p => do
    let piece ← p.renderBySlot values decorate
    return r.append piece) front

theorem renderOnto_append {ps qs : List Placement} {front r : Rendered}
    (h : renderOnto values decorate front ps = .ok r) :
    renderOnto values decorate front (ps ++ p :: qs) = (p.renderBySlot values decorate >>=
      fun piece => renderOnto values decorate (r.append piece) qs) := by
  unfold renderOnto at h ⊢
  rw [List.foldlM_append, h, Outcome.ok_bind, List.foldlM_cons, bind_assoc]
  rfl

end Placement

namespace Template

variable {t : Template} {decorate : Bool} {d : Dimension} {i : Int}
variable {goOn : Int → Outcome Rendered}

/-- Rendering the template comes to a slot that supplies an amount for one of its placements. With
a number from there the outcome is what `goOn` says. -/
inductive Reaches (t : Template) (decorate : Bool) (d : Dimension) (i : Int) :
    (Int → Outcome Rendered) → Prop
  | intro {b : Blueprint} {ps qs : List Placement} {p : Placement} {front : Rendered}
      {piece : Int → Outcome Rendered} : Blueprint.ofSegments t.segments = .ok b →
      b.placements = ps ++ p :: qs →
      Placement.renderOnto t.values decorate (.of b.head) ps = .ok front →
      d.slot? p = some i → p.Reaches t.values decorate d piece →
      Reaches t decorate d i fun n => piece n >>= fun r =>
        Placement.renderOnto t.values decorate (front.append r) qs

theorem Reaches.exists_slot (h : t.Reaches decorate d i goOn) :
    ∃ k : Nat, k < t.values.length ∧ i = k := by
  obtain ⟨hb, hplacements, -, hi, -⟩ := h
  rename_i b ps qs p front piece
  have hp : p ∈ b.placements := hplacements ▸ List.mem_append_right ps List.mem_cons_self
  exact exists_of_mem_slots hb p hp i (Dimension.mem_slots hi)

theorem Reaches.render_eq (h : t.Reaches decorate d i goOn) :
    t.render decorate = (Supply.resolveIn t.values i >>= fun v =>
      v.toAmount i d.refusal >>= goOn) := by
  obtain ⟨hb, hplacements, hfront, hi, hreaches⟩ := h
  rename_i b ps qs p front piece
  have hrender : b.renderBySlot t.values decorate =
      Placement.renderOnto t.values decorate (.of b.head) b.placements := rfl
  rw [Template.render_eq, renderBySlot, hb, Outcome.ok_bind, hrender, hplacements,
    Placement.renderOnto_append hfront, hreaches.renderBySlot_eq hi, bind_assoc]
  exact Outcome.bind_congr fun v => bind_assoc _ _ _

end Template

/-- Whatever a renderer was asked for before, rendering that has come to the slot of an amount goes
on past it exactly if the slot holds a whole number that is not negative. For every other value that
can be written it is refused with the slot in the diagnostic, by the category of the amount. A value
that cannot be written is not reported: rendering then ends with what showing the value fails
with. -/
theorem Renderer.renderForms_amount {colors caching : Bool} {capacity : Int} {r : Renderer}
    (hr : Renderer.make colors caching capacity = .ok r) (calls : List Renderer.Call)
    {t : Template} {decorate : Bool} {d : Dimension} {i : Int} {goOn : Int → Outcome Rendered}
    (h : t.Reaches decorate d i goOn) {v : Value} (hv : Supply.resolveIn t.values i = .ok v) :
    ∃ slot : Nat, slot < t.values.length ∧ i = slot ∧
      (∀ n : Nat, v = .int n → ((r.after calls).renderForms t decorate).1 = goOn n) ∧
      ((∀ n : Nat, v ≠ .int n) →
        (v.Writable → ∃ f, ((r.after calls).renderForms t decorate).1 = .error (.fault f) ∧
          f.category = d.category ∧ f.slot = some slot ∧ f.offset = none) ∧
        (¬v.Writable → ∃ e, v.shown = .error e ∧
          ((r.after calls).renderForms t decorate).1 = .error e)) := by
  obtain ⟨slot, hslot, rfl⟩ := h.exists_slot
  have hrender : ((r.after calls).renderForms t decorate).1 =
      (v.toAmount slot d.refusal >>= goOn) := by
    rw [renderForms_eq_render hr calls t decorate, h.render_eq, hv, Outcome.ok_bind]
  rw [hrender]
  refine ⟨slot, hslot, rfl, ?_, fun hne => ⟨fun hwritable => ?_, fun hunwritable => ?_⟩⟩
  · rintro n rfl
    rw [Value.toAmount_natCast, Outcome.ok_bind]
  · obtain ⟨s, hs⟩ := Value.exists_shown v hwritable
    obtain ⟨diagnostic, hrefusal, hcategory, hname, hoffset⟩ := d.exists_refusal slot s
    refine ⟨.ofDiagnostic diagnostic, ?_, hcategory, hname, hoffset⟩
    rw [Value.toAmount_of_ne hne, hs, Outcome.ok_bind, hrefusal]
    rfl
  · obtain ⟨e, he⟩ := Value.shown_eq_error_of_not_writable hunwritable
    refine ⟨e, he, ?_⟩
    rw [Value.toAmount_of_ne hne, he]
    rfl

/-- The width has been supplied, and the slot of the precision holds a decimal. -/
theorem Renderer.renderForms_amount_precision :
    ∃ r, Renderer.make false true 1 = .ok r ∧
      let t : Template := ⟨[[], [':'], ['.'], []],
        [.int 5, .int 6, .decimal (.finite false 5 (-1))], rfl⟩
      (∃ goOn, t.Reaches false .precision 2 goOn) ∧
        Supply.resolveIn t.values 2 = .ok (.decimal (.finite false 5 (-1))) ∧
        ∃ f, (r.renderForms t false).1 = .error (.fault f) ∧ f.category = .invalidPrecision ∧
          f.slot = some 2 := by
  obtain ⟨r, hr⟩ : ∃ r, Renderer.make false true 1 = .ok r := ⟨_, rfl⟩
  refine ⟨r, hr, ?_⟩
  intro t
  have hcompiled : Blueprint.ofSegments t.segments = .ok
      ⟨[], [] ++ .ofSpecifier 0 { width := .deferred, precision := .deferred } [] :: [], 3⟩ := rfl
  have hprecision : Placement.Reaches
      (.ofSpecifier 0 { width := .deferred, precision := .deferred } []) t.values false .precision
      _ := .precision (v := .int 5) (w := some 6) rfl rfl
  have hreaches : ∃ goOn, t.Reaches false .precision 2 goOn :=
    ⟨_, .intro hcompiled rfl rfl rfl hprecision⟩
  have hv : Supply.resolveIn t.values 2 = .ok (.decimal (.finite false 5 (-1))) := rfl
  refine ⟨hreaches, hv, ?_⟩
  obtain ⟨goOn, hgoOn⟩ := hreaches
  obtain ⟨slot, -, hslot, -, hrefused⟩ := renderForms_amount hr [] hgoOn hv
  obtain ⟨f, hf, hcategory, hname, -⟩ := (hrefused (fun _ => nofun)).1 trivial
  cases Int.ofNat.inj hslot
  exact ⟨f, hf, hcategory, hname⟩

/-- A negative number with too many digits, and a text that refers to a slot it does not have. No
diagnostic says that they are bad widths. -/
theorem Renderer.renderForms_unwritable_widths :
    ∃ r, Renderer.make false false 0 = .ok r ∧
      (r.renderForms ⟨[[], [':'], []],
        [.text ['a'], .int (-(Nat.pow 10 Numeral.longest : Nat))], rfl⟩ false).1 =
          .error .numeralTooLong ∧
      ∃ f, (r.renderForms ⟨[[], [':'], []],
        [.text ['a'], Template.toValue ⟨[[], []], [.ref (.int 9)], rfl⟩], rfl⟩ false).1 =
          .error (.fault f) ∧ f.category = .invalidReference ∧ f.slot = some 0 := by
  refine ⟨_, rfl, ?_, _, rfl, rfl, rfl⟩
  generalize hn : Nat.pow 10 Numeral.longest = n
  have hpos : 0 < n := by
    rw [← hn]
    exact Numeral.pow_ten_le (Nat.zero_le _)
  have hlong : Nat.pow 10 Numeral.longest ≤ (-(n : Int)).natAbs := by
    rw [hn, Int.natAbs_neg]
    exact Nat.le_refl n
  have hshown : Value.shown (.int (-(n : Int))) = .error .numeralTooLong :=
    Numeral.write_eq_error hlong
  have hamount : Value.toAmount (.int (-(n : Int))) 1 Diagnostic.invalidWidth =
      .error .numeralTooLong := by
    rw [Value.toAmount_of_ne fun k h => ?_, hshown]
    · rfl
    · injection h with h
      omega
  let t : Template := ⟨[[], [':'], []], [.text ['a'], .int (-(n : Int))], rfl⟩
  have hcompiled : Blueprint.ofSegments t.segments =
      .ok ⟨[], [] ++ .ofSpecifier 0 { width := .deferred } [] :: [], 2⟩ := rfl
  have hwidth : Placement.Reaches (.ofSpecifier 0 { width := .deferred } []) t.values false .width
      _ := .width (v := .text ['a']) rfl
  have hreaches : t.Reaches false .width 1 _ := .intro hcompiled rfl rfl rfl hwidth
  have hresolved : Supply.resolveIn t.values 1 = .ok (.int (-(n : Int))) := rfl
  have hrender : t.render false = .error .numeralTooLong := by
    rw [hreaches.render_eq, hresolved, Outcome.ok_bind, Dimension.refusal, hamount]
    rfl
  have hmake : Renderer.make false false 0 = .ok ⟨false, none⟩ := rfl
  exact (renderForms_eq_render hmake [] t false).trans hrender

end SlotText
