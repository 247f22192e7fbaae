import SlotText.Proofs.Rendering.Pieces

/-!
# References are transparent

A slot with a reference shows what the reference leads to, wherever the slot is: one whose value is
laid out, or one that supplies a width or a precision. So once a template renders, its references
can be replaced by the values that they lead to. Every slot is taken by some placement, which is
why every reference of such a template leads to a value.
-/
namespace SlotText

namespace Supply

variable {values : List Value} {i : Nat} {v : Value}

/-- The values with every reference replaced by what it leads to, if it leads to a value. -/
def resolved (values : List Value) : List Value :=
  values.mapIdx fun i v => (resolveIn values i).toOption.getD v

theorem length_resolved (values : List Value) : (resolved values).length = values.length :=
  List.length_mapIdx

theorem getElem?_resolved (h : resolveIn values i = .ok v) (hi : i < values.length) :
    (resolved values)[i]? = some v := by
  rw [resolved, List.getElem?_mapIdx, List.getElem?_eq_getElem hi, Option.map_some, h]
  rfl

theorem ne_ref_of_resolveIn (h : resolveIn values i = .ok v) (hi : i < values.length)
    (target : Value) : v ≠ .ref target := by
  obtain ⟨path, s, -, -, href⟩ := (resolveIn_eq_ok_iff hi).mp h
  exact href target

/-- A slot with a value has the same value after the replacement, and now holds it itself. -/
theorem resolveIn_resolved (h : resolveIn values i = .ok v) (hi : i < values.length) :
    resolveIn (resolved values) i = resolveIn values i := by
  rw [h, resolveIn_of_getElem? (getElem?_resolved h hi) (ne_ref_of_resolveIn h hi)]

end Supply

namespace Template

/-- The template with every reference replaced by what it leads to. -/
def resolved (t : Template) : Template :=
  ⟨t.segments, Supply.resolved t.values, by rw [Supply.length_resolved, t.length_segments]⟩

variable {t : Template} {b : Blueprint} {decorate : Bool} {o r : Rendered}

theorem exists_resolveIn (hb : Blueprint.ofSegments t.segments = .ok b)
    (h : Placement.Pieces t.values decorate b.placements r) {i : Nat} (hi : i < t.values.length) :
    ∃ v, Supply.resolveIn t.values i = .ok v := by
  apply h.resolves
  rw [slots_eq hb]
  exact List.mem_map_of_mem (List.mem_range.mpr hi)

theorem render_resolved (h : t.render decorate = .ok o) :
    (∀ i < t.values.length, ∃ v : Value, Supply.resolveIn t.values i = .ok v ∧
      t.resolved.values[i]? = some v ∧ ∀ target, v ≠ .ref target) ∧
    t.resolved.render decorate = .ok o := by
  obtain ⟨b, r, hb, hpieces, rfl⟩ := render_eq_ok_iff.mp h
  have hresolves : ∀ i < t.values.length, ∃ v, Supply.resolveIn t.values i = .ok v :=
    fun i => exists_resolveIn hb hpieces
  constructor
  · intro i hi
    obtain ⟨v, hv⟩ := hresolves i hi
    exact ⟨v, hv, Supply.getElem?_resolved hv hi, Supply.ne_ref_of_resolveIn hv hi⟩
  · have hsame : ∀ p ∈ b.placements, ∀ i ∈ p.slots,
        Supply.resolveIn t.resolved.values (i + 0) = Supply.resolveIn t.values i := by
      intro p hp i hi
      obtain ⟨k, hk, rfl⟩ := exists_of_mem_slots hb p hp i hi
      obtain ⟨v, hv⟩ := hresolves k hk
      rw [Int.add_zero]
      exact Supply.resolveIn_resolved hv hk
    have hpieces' := hpieces.shift hsame
    rw [Placement.map_shift_zero] at hpieces'
    exact render_eq_ok_iff.mpr ⟨b, r, hb, hpieces', rfl⟩

end Template

/-- If a template renders, every slot leads to a value, and the template with these values in place
of its references renders to the same two forms. -/
theorem Renderer.renderForms_resolved {colors caching : Bool} {capacity : Int} {r : Renderer}
    (hr : Renderer.make colors caching capacity = .ok r) (calls calls' : List Renderer.Call)
    {t : Template} {decorate : Bool} {o : Rendered}
    (ho : ((r.after calls).renderForms t decorate).1 = .ok o) :
    (∀ i < t.values.length, ∃ v : Value, Supply.resolveIn t.values i = .ok v ∧
      t.resolved.values[i]? = some v ∧ ∀ target, v ≠ .ref target) ∧
    ((r.after calls').renderForms t.resolved decorate).1 = .ok o := by
  have hfaithful := (faithful_make hr).after calls
  have hfaithful' := (faithful_make hr).after calls'
  rw [(hfaithful.renderForms t decorate).1] at ho
  rw [(hfaithful'.renderForms t.resolved decorate).1]
  exact Template.render_resolved ho

/-- The value, its width and the value behind both are references, one to another. -/
theorem Renderer.renderForms_resolved_width :
    ∃ r, Renderer.make false true 1 = .ok r ∧
      let t : Template := ⟨[[], [':'], "; ".toList, []],
        [.ref (.int 1), .ref (.int 2), .int 3], rfl⟩
      (r.renderForms t true).1 = .ok (.of "  3 3".toList) ∧
        (r.renderForms t.resolved true).1 = .ok (.of "  3 3".toList) ∧
        Supply.resolveIn t.values 0 = .ok (.int 3) := by
  obtain ⟨r, hr⟩ : ∃ r, Renderer.make false true 1 = .ok r := ⟨_, rfl⟩
  have ho : ((r.after []).renderForms ⟨[[], [':'], "; ".toList, []],
      [.ref (.int 1), .ref (.int 2), .int 3], rfl⟩ true).1 = .ok (.of "  3 3".toList) := by
    cases hr
    rfl
  obtain ⟨-, hresolved⟩ := Renderer.renderForms_resolved hr [] [] ho
  exact ⟨r, hr, ho, hresolved, rfl⟩

end SlotText
