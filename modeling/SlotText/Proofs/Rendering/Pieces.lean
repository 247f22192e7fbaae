import SlotText.Proofs.Rendering.BySlot
import SlotText.Proofs.Template.Groups

/-!
# The pieces of a rendering

A template that renders is its head with one piece behind it for each placement. A piece depends
on what the slots of its placement hold and not on which slots they are, so placements can move to
other slots, of the same values or of others, as long as these hold the same.
-/
namespace SlotText

namespace Supply

variable {values : List Value} {slot : Option Int} {refusal : Index → Text → Outcome Diagnostic}

theorem eq_int_of_amount? {v : Value} {n : Int} (h : v.amount? = some n) :
    v = .int n ∧ 0 ≤ n := by
  unfold Value.amount? at h
  split at h
  · split at h
    · cases h
    · next hn =>
        cases h
        exact ⟨rfl, Int.not_lt.mp hn⟩
  · cases h

theorem toAmount_eq_ok_iff {v : Value} {i n : Int} :
    v.toAmount i refusal = .ok n ↔ v = .int n ∧ 0 ≤ n := by
  constructor
  · intro h
    unfold Value.toAmount at h
    split at h
    · next m hm =>
        cases h
        exact eq_int_of_amount? hm
    · obtain ⟨s, -, h⟩ := Outcome.bind_eq_ok.mp h
      exact absurd h (Outcome.refuse_ne_ok _ _)
  · intro h
    obtain ⟨rfl, hn⟩ := h
    rw [Value.toAmount, Value.amount?, if_neg (Int.not_lt.mpr hn)]

/-- An amount is taken exactly if its slot, where it has one, holds a number that is not
negative. -/
theorem amountAt_eq_ok_iff {n : Option Int} :
    amountAt values slot refusal = .ok n ↔
      slot.map (resolveIn values) = n.map (fun k => .ok (.int k)) ∧ ∀ k, n = some k → 0 ≤ k := by
  cases slot with
  | none =>
      cases n with
      | none => simp [amountAt]
      | some k => simp [amountAt]
  | some i =>
      constructor
      · intro h
        obtain ⟨v, hv, h⟩ := Outcome.bind_eq_ok.mp h
        obtain ⟨k, hk, h⟩ := Outcome.bind_eq_ok.mp h
        cases h
        obtain ⟨rfl, hnonneg⟩ := toAmount_eq_ok_iff.mp hk
        refine ⟨by rw [Option.map_some, hv]; rfl, ?_⟩
        intro k' hk'
        cases hk'
        exact hnonneg
      · intro h
        obtain ⟨hslot, hnonneg⟩ := h
        cases n with
        | none => cases hslot
        | some k =>
            have hv : resolveIn values i = .ok (.int k) := Option.some.inj hslot
            have hk : (Value.int k).toAmount i refusal = .ok k :=
              toAmount_eq_ok_iff.mpr ⟨rfl, hnonneg k rfl⟩
            rw [amountAt, hv, Outcome.ok_bind, hk, Outcome.ok_bind]
            rfl

theorem eq_of_amountAt {i n : Int} {w : Option Int}
    (h : amountAt values (some i) refusal = .ok w) (hi : resolveIn values i = .ok (.int n)) :
    w = some n := by
  obtain ⟨hslot, -⟩ := amountAt_eq_ok_iff.mp h
  rw [Option.map_some, hi] at hslot
  cases w with
  | none => cases hslot
  | some k =>
      cases hslot
      rfl

/-- An amount can be taken from another slot that has the same value. -/
theorem amountAt_move {values' : List Value} {f : Int → Int} {n : Option Int}
    (h : amountAt values slot refusal = .ok n)
    (hslot : ∀ i, slot = some i → resolveIn values' (f i) = resolveIn values i) :
    amountAt values' (slot.map f) refusal = .ok n := by
  rw [amountAt_eq_ok_iff] at h ⊢
  rw [Option.map_map, ← h.1]
  exact ⟨Option.map_congr hslot, h.2⟩

/-- A slot that holds no reference has the value that it holds. -/
theorem resolveIn_of_getElem? {i : Nat} {v : Value} (hv : values[i]? = some v)
    (href : ∀ target, v ≠ .ref target) : resolveIn values i = .ok v := by
  rw [resolveIn_eq_follow hv, follow_value href]

/-- None of the values is a reference. -/
def Direct (values : List Value) : Prop := ∀ v ∈ values, ∀ target, v ≠ .ref target

/-- What a slot among direct values has depends on nothing but the value that it holds. -/
theorem Direct.resolveIn_congr {values' : List Value} {i j : Nat} (h : Direct values)
    (hi : i < values.length) (hj : values'[j]? = values[i]?) :
    resolveIn values' j = resolveIn values i := by
  have hv := List.getElem?_eq_getElem hi
  have href := h values[i] (List.getElem_mem hi)
  rw [resolveIn_of_getElem? hv href, resolveIn_of_getElem? (hj.trans hv) href]

end Supply

namespace Placement

variable {p : Placement} {ps qs : List Placement} {values values' : List Value} {decorate : Bool}
variable {piece r : Rendered}

theorem renderBySlot_eq_ok_iff : p.renderBySlot values decorate = .ok piece ↔
    ∃ v w q laid, Supply.resolveIn values p.slot = .ok v ∧
      Supply.amountAt values p.widthSlot Diagnostic.invalidWidth = .ok w ∧
      Supply.amountAt values p.precisionSlot Diagnostic.invalidPrecision = .ok q ∧
      v.layOut (p.spec.bind w q) decorate = .ok laid ∧ piece = laid.append (.of p.tail) := by
  constructor
  · intro h
    obtain ⟨v, hv, h⟩ := Outcome.bind_eq_ok.mp h
    obtain ⟨w, hw, h⟩ := Outcome.bind_eq_ok.mp h
    obtain ⟨q, hq, h⟩ := Outcome.bind_eq_ok.mp h
    obtain ⟨laid, hlaid, h⟩ := Outcome.bind_eq_ok.mp h
    cases h
    exact ⟨v, w, q, laid, hv, hw, hq, hlaid, rfl⟩
  · intro h
    obtain ⟨v, w, q, laid, hv, hw, hq, hlaid, rfl⟩ := h
    rw [renderBySlot, hv, Outcome.ok_bind, hw, Outcome.ok_bind, hq, Outcome.ok_bind, hlaid]
    rfl

theorem renderBySlot_shift {k : Int}
    (h : ∀ i ∈ p.slots, Supply.resolveIn values' (i + k) = Supply.resolveIn values i)
    (hp : p.renderBySlot values decorate = .ok piece) :
    (p.shift k).renderBySlot values' decorate = .ok piece := by
  obtain ⟨v, w, q, laid, hv, hw, hq, hlaid, rfl⟩ := renderBySlot_eq_ok_iff.mp hp
  have hwidth := Supply.amountAt_move hw fun i hi => h i (mem_slots_of_width hi)
  have hprecision := Supply.amountAt_move hq fun i hi => h i (mem_slots_of_precision hi)
  rw [← h p.slot List.mem_cons_self] at hv
  exact renderBySlot_eq_ok_iff.mpr ⟨v, w, q, laid, hv, hwidth, hprecision, hlaid, rfl⟩

/-- A piece is there only if every slot of its placement has a value. -/
theorem resolves_of_renderBySlot (hp : p.renderBySlot values decorate = .ok piece) :
    ∀ i ∈ p.slots, ∃ v, Supply.resolveIn values i = .ok v := by
  obtain ⟨v, w, q, laid, hv, hw, hq, -, -⟩ := renderBySlot_eq_ok_iff.mp hp
  have hamount : ∀ {slot n : Option Int} {i : Int},
      slot.map (Supply.resolveIn values) = n.map (fun k => .ok (.int k)) → slot = some i →
      ∃ v, Supply.resolveIn values i = .ok v := by
    intro slot n i hslot hi
    subst hi
    cases n with
    | none => cases hslot
    | some k => exact ⟨.int k, Option.some.inj hslot⟩
  intro i hi
  simp only [slots, List.mem_cons, List.mem_append, Option.mem_toList] at hi
  rcases hi with rfl | hi | hi
  · exact ⟨v, hv⟩
  · exact hamount (Supply.amountAt_eq_ok_iff.mp hw).1 hi
  · exact hamount (Supply.amountAt_eq_ok_iff.mp hq).1 hi

/-- The pieces of some placements, one after another. -/
inductive Pieces (values : List Value) (decorate : Bool) : List Placement → Rendered → Prop
  | nil : Pieces values decorate [] (.of [])
  | cons {p : Placement} {ps : List Placement} {piece r : Rendered} :
      p.renderBySlot values decorate = .ok piece → Pieces values decorate ps r →
      Pieces values decorate (p :: ps) (piece.append r)

theorem Pieces.append {r' : Rendered} (h : Pieces values decorate ps r)
    (h' : Pieces values decorate qs r') : Pieces values decorate (ps ++ qs) (r.append r') := by
  induction h with
  | nil => exact h'
  | cons hp _ ih =>
      rw [Rendered.append_assoc]
      exact .cons hp ih

theorem Pieces.exists_of_append (h : Pieces values decorate (ps ++ qs) r) :
    ∃ r₁ r₂, Pieces values decorate ps r₁ ∧ Pieces values decorate qs r₂ ∧ r = r₁.append r₂ := by
  induction ps generalizing r with
  | nil => exact ⟨.of [], r, .nil, h, rfl⟩
  | cons p ps ih =>
      cases h with
      | cons hp h =>
          obtain ⟨r₁, r₂, h₁, h₂, rfl⟩ := ih h
          exact ⟨_, r₂, .cons hp h₁, h₂, (Rendered.append_assoc _ _ _).symm⟩

theorem Pieces.shift {k : Int} (h : Pieces values decorate ps r)
    (hk : ∀ p ∈ ps, ∀ i ∈ p.slots, Supply.resolveIn values' (i + k) = Supply.resolveIn values i) :
    Pieces values' decorate (ps.map (shift k)) r := by
  induction h with
  | nil => exact .nil
  | cons hp _ ih =>
      obtain ⟨hfirst, hrest⟩ := List.forall_mem_cons.mp hk
      exact .cons (renderBySlot_shift hfirst hp) (ih hrest)

/-- Groups that stand behind another slot have the same pieces if the slots there hold the same. -/
theorem Pieces.of_divided {n : Nat} {literals : List Text} (h : Pieces values decorate ps r)
    (hdivided : Blueprint.Divided n literals ps) (m : Nat) (values' : List Value)
    (hvalues : ∀ k < literals.length, Supply.resolveIn values' (m + k : Nat) =
      Supply.resolveIn values (n + k : Nat)) :
    Pieces values' decorate (ps.map (Placement.shift (m - n))) r := by
  apply h.shift
  intro p hp i hi
  obtain ⟨k, hk, rfl⟩ := hdivided.exists_of_mem_slots hp hi
  have hslot : ((n + k : Nat) : Int) + (m - n) = (m + k : Nat) := by omega
  rw [hslot, hvalues k hk]

theorem Pieces.resolves (h : Pieces values decorate ps r) :
    ∀ i ∈ ps.flatMap slots, ∃ v, Supply.resolveIn values i = .ok v := by
  induction h with
  | nil => simp
  | cons hp _ ih =>
      intro i hi
      rcases List.mem_append.mp (List.flatMap_cons ▸ hi) with hi | hi
      · exact resolves_of_renderBySlot hp i hi
      · exact ih i hi

theorem foldlM_eq_ok_iff {front o : Rendered} :
    (ps.foldlM (fun r p => do
      let piece ← p.renderBySlot values decorate
      return r.append piece) front : Outcome Rendered) = .ok o ↔
      ∃ r, Pieces values decorate ps r ∧ o = front.append r := by
  induction ps generalizing front with
  | nil =>
      constructor
      · intro h
        cases h
        exact ⟨.of [], .nil, (Rendered.append_of_nil _).symm⟩
      · intro h
        obtain ⟨r, h, rfl⟩ := h
        cases h
        rw [Rendered.append_of_nil]
        rfl
  | cons p ps ih =>
      rw [List.foldlM_cons, bind_assoc]
      constructor
      · intro h
        obtain ⟨piece, hp, h⟩ := Outcome.bind_eq_ok.mp h
        obtain ⟨r, hr, rfl⟩ := ih.mp h
        exact ⟨piece.append r, .cons hp hr, Rendered.append_assoc _ _ _⟩
      · intro h
        obtain ⟨r, h, rfl⟩ := h
        cases h with
        | cons hp h =>
            rw [hp, Outcome.ok_bind, pure_bind]
            exact ih.mpr ⟨_, h, (Rendered.append_assoc _ _ _).symm⟩

end Placement

/-- A template renders to the head of its blueprint and the pieces of the placements. -/
theorem Template.render_eq_ok_iff {t : Template} {decorate : Bool} {o : Rendered} :
    t.render decorate = .ok o ↔ ∃ b r, Blueprint.ofSegments t.segments = .ok b ∧
      Placement.Pieces t.values decorate b.placements r ∧ o = (Rendered.of b.head).append r := by
  rw [Template.render_eq, Template.renderBySlot, Outcome.bind_eq_ok]
  constructor
  · intro h
    obtain ⟨b, hb, h⟩ := h
    obtain ⟨r, hr, rfl⟩ := Placement.foldlM_eq_ok_iff.mp h
    exact ⟨b, r, hb, hr, rfl⟩
  · intro h
    obtain ⟨b, r, hb, hr, rfl⟩ := h
    exact ⟨b, hb, Placement.foldlM_eq_ok_iff.mpr ⟨r, hr, rfl⟩⟩

/-- A blueprint of a template divides as many literals as there are values. -/
theorem Template.exists_divided {t : Template} {b : Blueprint}
    (h : Blueprint.ofSegments t.segments = .ok b) :
    ∃ literals, t.segments = b.head :: literals ∧ Blueprint.Divided 0 literals b.placements ∧
      literals.length = t.values.length ∧ b.slotCount = t.values.length := by
  obtain ⟨literals, hsegments, hps, hcount⟩ := Blueprint.exists_divided h
  have hlength := t.length_segments
  rw [hsegments, List.length_cons] at hlength
  exact ⟨literals, hsegments, hps, Nat.succ.inj hlength, hcount.trans (Nat.succ.inj hlength)⟩

end SlotText
