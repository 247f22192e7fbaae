import SlotText.Proofs.Renderer.Calls
import SlotText.Proofs.Template.Slots
import SlotText.Proofs.References

/-!
# Rendering by slots

A placement says which slots it takes, but rendering does not look at them: it hands out values
one after another. Here a template is rendered by the slots that its placements name. Both ways
agree, since the slots of the placements are all slots in order; so the supply never runs out.
-/
namespace SlotText

namespace Supply

/-- The value of a slot as an amount, if there is a slot for the amount. -/
def amountAt (values : List Value) (slot : Option Int)
    (refusal : Index → Text → Outcome Diagnostic) : Outcome (Option Int) :=
  match slot with
  | none => .ok none
  | some i => do
    let v ← resolveIn values i
    let n ← v.toAmount i refusal
    return some n

end Supply

namespace Placement

/-- Lays out the value of the slot with the text behind it. -/
def renderBySlot (p : Placement) (values : List Value) (decorate : Bool) : Outcome Rendered := do
  let v ← Supply.resolveIn values p.slot
  let width ← Supply.amountAt values p.widthSlot Diagnostic.invalidWidth
  let precision ← Supply.amountAt values p.precisionSlot Diagnostic.invalidPrecision
  let r ← v.layOut (p.spec.bind width precision) decorate
  return r.append (.of p.tail)

end Placement

/-- The pieces of all placements are appended to the head, one after another. -/
def Blueprint.renderBySlot (b : Blueprint) (values : List Value) (decorate : Bool) :
    Outcome Rendered :=
  b.placements.foldlM (fun r p => do
    let piece ← p.renderBySlot values decorate
    return r.append piece) (.of b.head)

def Template.renderBySlot (t : Template) (decorate : Bool) : Outcome Rendered := do
  let b ← Blueprint.ofSegments t.segments
  b.renderBySlot t.values decorate

theorem Rendered.append_assoc (a b c : Rendered) :
    (a.append b).append c = a.append (b.append c) := by
  simp [append]

theorem Rendered.append_of_nil (a : Rendered) : a.append (.of []) = a := by
  simp [append, of]

namespace Supply

variable {s : Supply}

theorem next_eq (s : Supply) :
    s.next = (resolveIn s.values s.position >>= fun v =>
      .ok ((s.position, v), { s with position := s.position + 1 })) := rfl

theorem nextAmountIf_eq {slot : Option Int} (h : ∀ i, slot = some i → i = s.position)
    (refusal : Index → Text → Outcome Diagnostic) :
    s.nextAmountIf slot.isSome refusal = (amountAt s.values slot refusal >>= fun n =>
      .ok (n, { s with position := s.position + if slot.isSome then 1 else 0 })) := by
  cases slot with
  | none => rfl
  | some i =>
      rw [h i rfl]
      simp only [nextAmountIf, Option.isSome_some, if_true, nextAmount, next_eq, amountAt]
      cases hv : resolveIn s.values s.position with
      | error e => rfl
      | ok v =>
          simp only [Outcome.ok_bind]
          cases hn : v.toAmount s.position refusal with
          | error e => rfl
          | ok n => rfl

end Supply

namespace Placement

variable {p : Placement} {ps : List Placement} {values : List Value} {n m : Nat}

/-- Taking the next values comes to the same as taking the values of the slots. -/
theorem render_eq (hn : p.slot = n) (hp : p.Consecutive) (values : List Value)
    (decorate : Bool) :
    p.render decorate ⟨values, n⟩ = (p.renderBySlot values decorate >>= fun r =>
      .ok (r, ⟨values, n + p.consumed⟩)) := by
  have hwidth : ∀ i, p.widthSlot = some i → i = ((⟨values, n + 1⟩ : Supply).position : Int) := by
    intro i hi
    rw [hp.width i hi, hn]
    rfl
  have hprecision : ∀ i, p.precisionSlot = some i → i =
      ((⟨values, n + 1 + if p.widthSlot.isSome then 1 else 0⟩ : Supply).position : Int) := by
    intro i hi
    rw [hp.precision i hi, hn]
    split
    · rfl
    · rfl
  have hlast : n + 1 + (if p.widthSlot.isSome then 1 else 0) +
      (if p.precisionSlot.isSome then 1 else 0) = n + p.consumed := by
    rw [consumed, absorbed]
    omega
  simp only [render, renderBySlot, Supply.next_eq, bind_assoc, Outcome.ok_bind,
    Supply.nextAmountIf_eq hwidth, Supply.nextAmountIf_eq hprecision, hn, hlast, Outcome.pure_eq]

/-- Rendering placements that take the slots in order adds the pieces of these slots. -/
theorem renderPlacements_eq (h : InOrder n ps m) (values : List Value) (decorate : Bool)
    (front : Rendered) :
    (Blueprint.renderPlacements decorate ps ⟨values, n⟩ >>= fun r => .ok (front.append r)) =
      ps.foldlM (fun r p => do
        let piece ← p.renderBySlot values decorate
        return r.append piece) front := by
  induction h generalizing front with
  | nil n => rw [Blueprint.renderPlacements, Outcome.ok_bind, Rendered.append_of_nil]; rfl
  | cons hn hp h ih =>
      rename_i n m p ps
      simp only [Blueprint.renderPlacements, render_eq hn hp, List.foldlM_cons, bind_assoc,
        Outcome.ok_bind, pure_bind, ← ih, Rendered.append_assoc]

end Placement

theorem Template.render_eq (t : Template) (decorate : Bool) :
    t.render decorate = t.renderBySlot decorate := by
  rw [Template.render, Template.renderBySlot]
  cases hb : Blueprint.ofSegments t.segments with
  | error e => rfl
  | ok b =>
      have hslots := (Blueprint.ofSegments_inOrder hb).1
      exact Placement.renderPlacements_eq hslots t.values decorate (.of b.head)

theorem Template.slots_eq {t : Template} {b : Blueprint}
    (hb : Blueprint.ofSegments t.segments = .ok b) :
    b.placements.flatMap Placement.slots = (List.range t.values.length).map Int.ofNat := by
  obtain ⟨-, hlength⟩ := Blueprint.ofSegments_inOrder hb
  rw [t.length_segments] at hlength
  rw [Blueprint.ofSegments_slots hb, Nat.succ.inj hlength]

theorem Template.exists_of_mem_slots {t : Template} {b : Blueprint}
    (hb : Blueprint.ofSegments t.segments = .ok b) :
    ∀ p ∈ b.placements, ∀ j ∈ p.slots, ∃ i : Nat, i < t.values.length ∧ j = i := by
  intro p hp j hj
  have hmem := List.mem_flatMap.mpr ⟨p, hp, hj⟩
  rw [slots_eq hb] at hmem
  obtain ⟨i, hi, rfl⟩ := List.mem_map.mp hmem
  exact ⟨i, List.mem_range.mp hi, rfl⟩

/-- Whatever a renderer was asked for before, it renders a template as its slots say. The slots
taken are those of the values, each of them once. None of them lacks a value; only a reference to
a formatted text can end with a fault that says so, which is then a fault of that text. -/
theorem Renderer.renderForms_eq {colors caching : Bool} {capacity : Int} {r : Renderer}
    (hr : Renderer.make colors caching capacity = .ok r) (calls : List Renderer.Call)
    (t : Template) (decorate : Bool) :
    ((r.after calls).renderForms t decorate).1 = t.renderBySlot decorate ∧
    ∀ b, Blueprint.ofSegments t.segments = .ok b →
      b.placements.flatMap Placement.slots = (List.range t.values.length).map Int.ofNat ∧
      ∀ i ∈ b.placements.flatMap Placement.slots, ∀ f,
        Supply.resolveIn t.values i = .error (.fault f) → f.category = .missingArgument →
        ∃ target, .ref target ∈ t.values ∧ target.shown = .error (.fault f) := by
  constructor
  · have hfaithful := (faithful_make hr).after calls
    rw [(hfaithful.renderForms t decorate).1, Template.render_eq]
  · intro b hb
    have hslots := Template.slots_eq hb
    refine ⟨hslots, ?_⟩
    intro i hi f hf hc
    rw [hslots] at hi
    obtain ⟨k, hk, rfl⟩ := List.mem_map.mp hi
    exact Supply.missingArgument_of_shown (List.mem_range.mp hk) hf hc

/-- A renderer whose cache holds one blueprint, which was made by an earlier call. -/
theorem Renderer.renderForms_deferred_width :
    ∃ r, Renderer.make false true 1 = .ok r ∧
      ((r.after [.compile [[], [':'], []]]).renderForms
        ⟨[[], [':'], []], [.text ['a'], .int 3], rfl⟩ false).1 = .ok (.of "  a".toList) := by
  obtain ⟨r, hr⟩ : ∃ r, Renderer.make false true 1 = .ok r := ⟨_, rfl⟩
  refine ⟨r, hr, ?_⟩
  rw [(Renderer.renderForms_eq hr _ _ false).1]
  rfl

/-- The only slot has a value, and still a missing argument is reported when it is taken. The value
refers to a formatted text, and what lacks an argument is that text, when it is written for the
message about the reference. -/
theorem Renderer.renderForms_unwritable_target :
    let inner : Template := ⟨[[], [':']], [.int 1], rfl⟩
    let t : Template := ⟨[[], []], [.ref inner.toValue], rfl⟩
    ∃ r f, Renderer.make false false 0 = .ok r ∧ f.category = .missingArgument ∧
      Supply.resolveIn t.values 0 = .error (.fault f) ∧
      Supply.next { values := t.values } = .error (.fault f) ∧
      (r.renderForms t false).1 = .error (.fault f) :=
  ⟨_, _, rfl, rfl, rfl, rfl, rfl⟩

end SlotText
