import SlotText.Proofs.Rendering.Pieces
import SlotText.Proofs.Template.Partition
import SlotText.Proofs.Value.Unformatted

/-!
# Which slot a fault names

Slots are counted twice: by their literals when a template is compiled, and by their values when it
is rendered. A fault of compiling names the first slot whose specifier cannot be read, or the slot
behind the last one if that is what the specifier lacks. A fault of rendering names the slot whose
own value is to blame: a reference that leads to no value, or a value that cannot be the amount that
the slot supplies. Whatever the earlier slots supply has been taken by then.
-/
namespace SlotText

namespace Blueprint
open Placement

variable {segments literals : List Text} {slot skip count : Nat} {e : Failure}

/-- The placements before the slot that is refused have been read, and take all slots up to it. -/
theorem exists_refused (hcount : segments.length = count + 1)
    (hdrop : segments.drop (slot + 1) = literals) (hskip : skip ≤ literals.length)
    (h : placementsFrom count slot skip literals = .error e) :
    ∃ i ps, i < count ∧ InOrder (slot + skip) ps i ∧
      (∀ p ∈ ps, placementAt segments p.slot = .ok (p, p.slot + p.consumed)) ∧
      placementAt segments i = .error e ∧ Refused i count segments e := by
  induction literals generalizing slot skip with
  | nil => cases h
  | cons literal following ih =>
      have hnext : segments.drop (slot + 1 + 1) = following := by
        rw [← List.tail_drop, hdrop, List.tail_cons]
      cases skip with
      | succ skip =>
          have hfirst : slot + (skip + 1) = slot + 1 + skip := by omega
          rw [hfirst]
          exact ih hnext (Nat.le_of_succ_le_succ hskip) h
      | zero =>
          have hlength := congrArg List.length hdrop
          rw [List.length_drop, List.length_cons] at hlength
          have hcast : (segments.length : Int) - 1 = count := by omega
          have hplacement := placementAt_eq hdrop
          rw [hcast] at hplacement
          rw [placementsFrom] at h
          cases hread : Placement.read slot count literal following with
          | error e' =>
              rw [hread] at h hplacement
              cases h
              have hrefused := failsOnly_read (by omega) e hread
              refine ⟨slot, [], by omega, .nil slot, by simp, hplacement, hrefused.mono ?_⟩
              intro s hs
              exact List.mem_of_mem_drop (hdrop ▸ hs)
          | ok p =>
              rw [hread, Outcome.ok_bind] at h hplacement
              obtain ⟨hslot, hconsecutive, habsorbed⟩ := read_consecutive hread
              have hrest : placementsFrom count (slot + 1) p.absorbed following = .error e :=
                (Outcome.bind_eq_error_iff fun ps => ⟨_, rfl⟩).mp h
              obtain ⟨i, ps, hi, hordered, hreads, hrefused⟩ := ih hnext habsorbed hrest
              have hconsumed : slot + 0 + p.consumed = slot + 1 + p.absorbed := by
                rw [consumed]
                omega
              refine ⟨i, p :: ps, hi, .cons hslot hconsecutive (hconsumed ▸ hordered), ?_, hrefused⟩
              exact List.forall_mem_cons.mpr ⟨hslot ▸ hplacement, hreads⟩

theorem exists_refused_of_template {t : Template} (h : ofSegments t.segments = .error e) :
    ∃ i ps, i < t.values.length ∧ InOrder 0 ps i ∧
      (∀ p ∈ ps, placementAt t.segments p.slot = .ok (p, p.slot + p.consumed)) ∧
      placementAt t.segments i = .error e ∧ Refused i t.values.length t.segments e := by
  have hlength := t.length_segments
  cases hsegments : t.segments with
  | nil =>
      rw [hsegments] at hlength
      cases hlength
  | cons head literals =>
      rw [hsegments] at h hlength
      have hliterals : literals.length = t.values.length := Nat.succ.inj hlength
      rw [ofSegments, hliterals] at h
      have hplacements := (Outcome.bind_eq_error_iff fun ps => ⟨_, rfl⟩).mp h
      exact exists_refused hlength rfl (Nat.zero_le _) hplacements

end Blueprint

namespace Supply

variable {values : List Value} {i : Nat} {f : Fault}

/-- A slot that leads to no value holds a reference, and the fault names this slot and none that the
reference leads to. -/
theorem reference_of_resolveIn (hvalues : ∀ v ∈ values, v.Unformatted) (hi : i < values.length)
    (hf : resolveIn values i = .error (.fault f)) :
    f.slot = some i ∧ f.offset = none ∧ (∃ target, values[i]? = some (.ref target)) ∧
      (f.category = .invalidReference ∨ f.category = .selfReference ∨
        f.category = .referenceCycle) := by
  have href : ∃ target, values[i]? = some (.ref target) := by
    rw [List.getElem?_eq_getElem hi]
    by_contra hnone
    have hok : resolveIn values i = .ok values[i] := by
      apply resolveIn_of_getElem? (List.getElem?_eq_getElem hi)
      intro target htarget
      exact hnone ⟨target, congrArg some htarget⟩
    cases hok.symm.trans hf
  obtain ⟨path, ending, he⟩ := exists_ends hi
  rw [he.resolveIn_eq hi] at hf
  cases he with
  | value _ _ _ _ => cases hf
  | @invalid s target _ _ hv _ =>
      have hunformatted : (Value.ref target).Unformatted := hvalues _ (List.mem_of_getElem? hv)
      cases hs : target.shown with
      | error e =>
          rw [Ending.outcome, hs] at hf
          cases hf
          exact absurd rfl (Value.failsOnly_shown target hunformatted _ hs f)
      | ok shown =>
          rw [Ending.outcome, hs] at hf
          cases hf
          exact ⟨rfl, rfl, href, .inl rfl⟩
  | @closing _ t _ _ _ _ =>
      obtain ⟨d, hd, hcode, -, hslot, hoffset⟩ := outcome_closing values.length i path t
      cases hd.symm.trans hf
      have hcategory : d.code.category = .selfReference ∨ d.code.category = .referenceCycle := by
        rw [hcode]
        split
        · exact .inl rfl
        · exact .inr rfl
      exact ⟨hslot, hoffset, href, .inr hcategory⟩

/-- An amount is refused for the value of its slot, or for a reference that leads to none. -/
theorem blamed_of_amountAt {slot : Option Int} {refusal : Index → Text → Outcome Diagnostic}
    {c : Category} (hvalues : ∀ v ∈ values, v.Unformatted)
    (hslot : ∀ j, slot = some j → ∃ i : Nat, i < values.length ∧ j = i)
    (hrefusal : ∀ (i : Nat) s, ∃ d, refusal (.position i) s = .ok d ∧ d.code.category = c ∧
      d.slot = some i ∧ d.offset = none)
    (hf : amountAt values slot refusal = .error (.fault f)) :
    ∃ i : Nat, i < values.length ∧ slot = some (i : Int) ∧
      (resolveIn values i = .error (.fault f) ∨
        f.category = c ∧ f.slot = some i ∧ f.offset = none ∧
          ∃ v, resolveIn values i = .ok v ∧ ∀ n : Nat, v ≠ .int n) := by
  cases slot with
  | none => cases hf
  | some j =>
      obtain ⟨i, hi, rfl⟩ := hslot j rfl
      refine ⟨i, hi, rfl, ?_⟩
      rw [amountAt] at hf
      cases hv : resolveIn values i with
      | error e =>
          rw [hv] at hf
          cases hf
          exact .inl rfl
      | ok v =>
          rw [hv, Outcome.ok_bind] at hf
          have hamount := (Outcome.bind_eq_error_iff fun n => ⟨_, rfl⟩).mp hf
          unfold Value.toAmount at hamount
          split at hamount
          · cases hamount
          · next hnone =>
              have hunformatted := hvalues v (mem_of_resolveIn hi hv)
              cases hs : v.shown with
              | error e =>
                  rw [hs] at hamount
                  cases hamount
                  exact absurd rfl (Value.failsOnly_shown v hunformatted _ hs f)
              | ok s =>
                  obtain ⟨d, hd, hcategory, hslot, hoffset⟩ := hrefusal i s
                  rw [hs, Outcome.ok_bind, hd] at hamount
                  cases hamount
                  refine .inr ⟨hcategory, hslot, hoffset, v, rfl, ?_⟩
                  rintro n rfl
                  simp [Value.amount?] at hnone

end Supply

namespace Placement

variable {p : Placement} {ps : List Placement} {values : List Value} {decorate : Bool}
variable {f : Fault} {i j : Int}

/-- Why a fault of rendering names a slot of the placement. -/
inductive Blames (p : Placement) (values : List Value) (f : Fault) (i : Nat) : Prop
  | reference {target : Value} : (i : Int) ∈ p.slots → values[i]? = some (.ref target) →
      (f.category = .invalidReference ∨ f.category = .selfReference ∨
        f.category = .referenceCycle) → Blames p values f i
  | width {v : Value} : p.widthSlot = some (i : Int) → Supply.resolveIn values i = .ok v →
      (∀ n : Nat, v ≠ .int n) → f.category = .invalidWidth → Blames p values f i
  | precision {v : Value} : p.precisionSlot = some (i : Int) → Supply.resolveIn values i = .ok v →
      (∀ n : Nat, v ≠ .int n) → f.category = .invalidPrecision → Blames p values f i

/-- The slot has a value, and if it supplies an amount the value is one. -/
def Supplied (p : Placement) (values : List Value) (i : Int) : Prop :=
  (∃ v, Supply.resolveIn values i = .ok v) ∧
    (p.widthSlot = some i ∨ p.precisionSlot = some i →
      ∃ n : Nat, Supply.resolveIn values i = .ok (.int n))

theorem mem_slots_iff :
    i ∈ p.slots ↔ i = p.slot ∨ p.widthSlot = some i ∨ p.precisionSlot = some i := by
  simp [slots]

/-- The slot of the value supplies no amount. -/
theorem Consecutive.supplied (hp : p.Consecutive) {v : Value}
    (hv : Supply.resolveIn values p.slot = .ok v) : p.Supplied values p.slot := by
  refine ⟨⟨v, hv⟩, ?_⟩
  intro h
  exact absurd (hp.lt h).1 (Int.lt_irrefl _)

theorem supplied_of_amountAt {slot w : Option Int} {refusal : Index → Text → Outcome Diagnostic}
    (h : Supply.amountAt values slot refusal = .ok w) (hi : slot = some i) :
    p.Supplied values i := by
  obtain ⟨hslot, hnonneg⟩ := Supply.amountAt_eq_ok_iff.mp h
  subst hi
  obtain ⟨n, rfl, hn⟩ := Option.map_eq_some_iff.mp hslot.symm
  obtain ⟨m, rfl⟩ := Int.eq_ofNat_of_zero_le (hnonneg n rfl)
  exact ⟨⟨_, hn.symm⟩, fun _ => ⟨m, hn.symm⟩⟩

theorem supplied_of_renderBySlot (hp : p.Consecutive) {piece : Rendered}
    (h : p.renderBySlot values decorate = .ok piece) : ∀ i ∈ p.slots, p.Supplied values i := by
  obtain ⟨v, w, q, -, hv, hw, hq, -, -⟩ := renderBySlot_eq_ok_iff.mp h
  intro i hi
  rcases mem_slots_iff.mp hi with rfl | hi | hi
  · exact hp.supplied hv
  · exact supplied_of_amountAt hw hi
  · exact supplied_of_amountAt hq hi

theorem Pieces.supplied {r : Rendered} (h : Pieces values decorate ps r)
    (hps : ∀ p ∈ ps, p.Consecutive) : ∀ p ∈ ps, ∀ i ∈ p.slots, p.Supplied values i := by
  induction h with
  | nil => simp
  | cons hp _ ih =>
      obtain ⟨hfirst, hrest⟩ := List.forall_mem_cons.mp hps
      exact List.forall_mem_cons.mpr ⟨supplied_of_renderBySlot hfirst hp, ih hrest⟩

theorem Blames.of_resolveIn {i : Nat} (hvalues : ∀ v ∈ values, v.Unformatted)
    (hi : i < values.length) (hmem : (i : Int) ∈ p.slots)
    (hf : Supply.resolveIn values i = .error (.fault f)) :
    f.slot = some i ∧ f.offset = none ∧ p.Blames values f i := by
  obtain ⟨hslot, hoffset, ⟨target, htarget⟩, hcategory⟩ :=
    Supply.reference_of_resolveIn hvalues hi hf
  exact ⟨hslot, hoffset, .reference hmem htarget hcategory⟩

theorem Blames.of_amountAt {slot : Option Int} {refusal : Index → Text → Outcome Diagnostic}
    {c : Category} (hvalues : ∀ v ∈ values, v.Unformatted)
    (hslots : ∀ j ∈ p.slots, ∃ i : Nat, i < values.length ∧ j = i)
    (hmem : ∀ j, slot = some j → j ∈ p.slots)
    (hrefusal : ∀ (i : Nat) s, ∃ d, refusal (.position i) s = .ok d ∧ d.code.category = c ∧
      d.slot = some i ∧ d.offset = none)
    (hblames : ∀ (i : Nat) v, slot = some (i : Int) → Supply.resolveIn values i = .ok v →
      (∀ n : Nat, v ≠ .int n) → f.category = c → p.Blames values f i)
    (hf : Supply.amountAt values slot refusal = .error (.fault f)) :
    ∃ i : Nat, i < values.length ∧ slot = some (i : Int) ∧ f.slot = some i ∧ f.offset = none ∧
      p.Blames values f i := by
  obtain ⟨i, hi, hslot, hcause⟩ :=
    Supply.blamed_of_amountAt hvalues (fun j hj => hslots j (hmem j hj)) hrefusal hf
  rcases hcause with hf | ⟨hcategory, hname, hoffset, v, hv, hne⟩
  · exact ⟨i, hi, hslot, Blames.of_resolveIn hvalues hi (hmem i hslot) hf⟩
  · exact ⟨i, hi, hslot, hname, hoffset, hblames i v hslot hv hne hcategory⟩

/-- The first slot of a placement that is refused is named, after those before it were taken. -/
theorem exists_blames (hp : p.Consecutive) (hvalues : ∀ v ∈ values, v.Unformatted)
    (hslots : ∀ j ∈ p.slots, ∃ i : Nat, i < values.length ∧ j = i)
    (hf : p.renderBySlot values decorate = .error (.fault f)) :
    ∃ i : Nat, i < values.length ∧ (i : Int) ∈ p.slots ∧ f.slot = some i ∧ f.offset = none ∧
      p.Blames values f i ∧ ∀ j ∈ p.slots, j < i → p.Supplied values j := by
  obtain ⟨i, hi, hslot⟩ := hslots p.slot List.mem_cons_self
  rcases Outcome.bind_eq_error.mp hf with hf | ⟨v, hv, hf⟩
  · have hmem : (i : Int) ∈ p.slots := hslot ▸ List.mem_cons_self
    obtain ⟨hname, hoffset, hblames⟩ := Blames.of_resolveIn hvalues hi hmem (hslot ▸ hf)
    refine ⟨i, hi, hmem, hname, hoffset, hblames, ?_⟩
    intro j hj hlt
    rcases mem_slots_iff.mp hj with rfl | hj
    · omega
    · have hbehind := (hp.lt hj).1
      omega
  rcases Outcome.bind_eq_error.mp hf with hf | ⟨w, hw, hf⟩
  · have hrefusal : ∀ (i : Nat) s, ∃ d, Diagnostic.invalidWidth (.position i) s = .ok d ∧
        d.code.category = .invalidWidth ∧ d.slot = some i ∧ d.offset = none :=
      fun _ _ => ⟨_, rfl, rfl, rfl, rfl⟩
    obtain ⟨i, hi, hwidth, hname, hoffset, hblames⟩ := Blames.of_amountAt hvalues hslots
      (fun _ => mem_slots_of_width) hrefusal (fun _ _ => .width) hf
    refine ⟨i, hi, mem_slots_of_width hwidth, hname, hoffset, hblames, ?_⟩
    intro j hj hlt
    have hfirst := hp.width i hwidth
    rcases mem_slots_iff.mp hj with rfl | hj
    · exact hp.supplied hv
    · have hbehind := (hp.lt hj).1
      omega
  rcases Outcome.bind_eq_error.mp hf with hf | ⟨q, hq, hf⟩
  · have hrefusal : ∀ (i : Nat) s, ∃ d, Diagnostic.invalidPrecision (.position i) s = .ok d ∧
        d.code.category = .invalidPrecision ∧ d.slot = some i ∧ d.offset = none :=
      fun _ _ => ⟨_, rfl, rfl, rfl, rfl⟩
    obtain ⟨i, hi, hprecision, hname, hoffset, hblames⟩ := Blames.of_amountAt hvalues hslots
      (fun _ => mem_slots_of_precision) hrefusal (fun _ _ => .precision) hf
    refine ⟨i, hi, mem_slots_of_precision hprecision, hname, hoffset, hblames, ?_⟩
    intro j hj hlt
    rcases mem_slots_iff.mp hj with rfl | hj | hj
    · exact hp.supplied hv
    · exact supplied_of_amountAt hw hj
    · rw [hprecision] at hj
      cases hj
      exact absurd hlt (Int.lt_irrefl _)
  · have hlayout := (Outcome.bind_eq_error_iff fun r => ⟨_, rfl⟩).mp hf
    have hunformatted := hvalues v (Supply.mem_of_resolveIn hi (hslot ▸ hv))
    exact absurd rfl (Value.failsOnly_layOut hunformatted _ _ _ hlayout f)

end Placement

namespace Template

variable {t : Template} {b : Blueprint} {decorate : Bool} {f : Fault}

/-- The fault of rendering a template that has been compiled. -/
theorem exists_blames (hvalues : ∀ v ∈ t.values, v.Unformatted)
    (hb : Blueprint.ofSegments t.segments = .ok b)
    (hf : b.renderBySlot t.values decorate = .error (.fault f)) :
    ∃ p ∈ b.placements, ∃ i : Nat, i < t.values.length ∧ f.slot = some i ∧ f.offset = none ∧
      p.Blames t.values f i ∧
      ∀ q ∈ b.placements, ∀ j ∈ q.slots, j < i → q.Supplied t.values j := by
  obtain ⟨hordered, -⟩ := Blueprint.ofSegments_inOrder hb
  have hconsecutive := hordered.consecutive
  have hslots := exists_of_mem_slots hb
  have hsorted : (b.placements.flatMap Placement.slots).Pairwise (· < ·) := by
    rw [slots_eq hb]
    exact List.pairwise_lt_range.map _ fun _ _ => Int.ofNat_lt.mpr
  obtain ⟨ps₁, p, ps₂, r, hplacements, hbefore, hround⟩ := Outcome.exists_of_foldlM_eq_error hf
  rw [hplacements] at hslots hconsecutive hsorted ⊢
  obtain ⟨pieces, hpieces, -⟩ := Placement.foldlM_eq_ok_iff.mp hbefore
  have hp : p ∈ ps₁ ++ p :: ps₂ := List.mem_append_right _ List.mem_cons_self
  have hrender := (Outcome.bind_eq_error_iff fun piece => ⟨_, rfl⟩).mp hround
  obtain ⟨i, hi, hmem, hname, hoffset, hblames, hearlier⟩ :=
    Placement.exists_blames (hconsecutive p hp) hvalues (hslots p hp) hrender
  refine ⟨p, hp, i, hi, hname, hoffset, hblames, ?_⟩
  intro q hq j hj hlt
  rcases List.mem_append.mp hq with hq | hq
  · exact hpieces.supplied (fun p hp => hconsecutive p (List.mem_append_left _ hp)) q hq j hj
  · rcases List.mem_cons.mp hq with rfl | hq
    · exact hearlier j hj hlt
    · rw [List.flatMap_append, List.flatMap_cons] at hsorted
      have hbehind := (List.pairwise_append.mp (List.pairwise_append.mp hsorted).2.1).2.2
      have hle := hbehind i hmem j (List.mem_flatMap.mpr ⟨q, hq, hj⟩)
      omega

/-- What the category of a fault says about the slot that it names. -/
def Blames (t : Template) (f : Fault) (i : Nat) : Prop :=
  match f.category with
  | .missingArgument =>
    i = t.values.length ∧ Blueprint.ofSegments t.segments = .error (.fault f)
  | .malformedSpecifier =>
    (∃ ps, Placement.InOrder 0 ps i ∧
      ∀ p ∈ ps, Blueprint.placementAt t.segments p.slot = .ok (p, p.slot + p.consumed)) ∧
    Blueprint.placementAt t.segments i = .error (.fault f)
  | .invalidWidth =>
    ∃ b p v, Blueprint.ofSegments t.segments = .ok b ∧ p ∈ b.placements ∧
      p.widthSlot = some (i : Int) ∧ Supply.resolveIn t.values i = .ok v ∧ ∀ n : Nat, v ≠ .int n
  | .invalidPrecision =>
    ∃ b p v, Blueprint.ofSegments t.segments = .ok b ∧ p ∈ b.placements ∧
      p.precisionSlot = some (i : Int) ∧ Supply.resolveIn t.values i = .ok v ∧
      ∀ n : Nat, v ≠ .int n
  | .invalidReference | .selfReference | .referenceCycle =>
    ∃ target, t.values[i]? = some (.ref target)
  | _ => False

theorem blames_of_placement {p : Placement} {i : Nat}
    (hb : Blueprint.ofSegments t.segments = .ok b) (hp : p ∈ b.placements)
    (h : p.Blames t.values f i) :
    t.Blames f i ∧ f.category ≠ .missingArgument ∧ f.category ≠ .malformedSpecifier := by
  unfold Blames
  cases h with
  | @reference target _ htarget hcategory =>
      rcases hcategory with hcategory | hcategory | hcategory
      · rw [hcategory]
        exact ⟨⟨target, htarget⟩, by decide, by decide⟩
      · rw [hcategory]
        exact ⟨⟨target, htarget⟩, by decide, by decide⟩
      · rw [hcategory]
        exact ⟨⟨target, htarget⟩, by decide, by decide⟩
  | width hwidth hv hne hcategory =>
      rw [hcategory]
      exact ⟨⟨b, p, _, hb, hp, hwidth, hv, hne⟩, by decide, by decide⟩
  | precision hprecision hv hne hcategory =>
      rw [hcategory]
      exact ⟨⟨b, p, _, hb, hp, hprecision, hv, hne⟩, by decide, by decide⟩

end Template

/-- A fault names the slot that is to blame. A slot is lacking only behind the last one, and only a
specifier that cannot be read has an offset. All slots that were taken before have values, and those
of them that supply an amount have numbers. -/
theorem Renderer.renderForms_blames {colors caching : Bool} {capacity : Int} {r : Renderer}
    (hr : Renderer.make colors caching capacity = .ok r) (calls : List Renderer.Call)
    {t : Template} {decorate : Bool} {f : Fault} (hvalues : ∀ v ∈ t.values, v.Unformatted)
    (hf : ((r.after calls).renderForms t decorate).1 = .error (.fault f)) :
    ∃ i, f.slot = some i ∧ t.Blames f i ∧ (f.category = .missingArgument ↔ i = t.values.length) ∧
      (f.offset.isSome = true ↔ f.category = .malformedSpecifier) ∧
      ∀ b, Blueprint.ofSegments t.segments = .ok b → ∀ p ∈ b.placements, ∀ j ∈ p.slots,
        j < i → p.Supplied t.values j := by
  rw [renderForms_eq_render hr calls t decorate, Template.render_eq] at hf
  rcases Outcome.bind_eq_error.mp hf with hb | ⟨b, hb, hf⟩
  · obtain ⟨i, ps, hi, hordered, hreads, hplacement, hrefused⟩ :=
      Blueprint.exists_refused_of_template hb
    have huncompiled : ∀ b, Blueprint.ofSegments t.segments ≠ .ok b := by
      intro b hok
      cases hok.symm.trans hb
    cases hrefused with
    | @missing d hcode hslot hoffset =>
        have hcategory : (Fault.ofDiagnostic d).category = .missingArgument :=
          congrArg Code.category hcode
        refine ⟨t.values.length, hslot, ?_, ?_, ?_, fun b hok => absurd hok (huncompiled b)⟩
        · rw [Template.Blames, hcategory]
          exact ⟨rfl, hb⟩
        · exact iff_of_true hcategory rfl
        · have hnone : (Fault.ofDiagnostic d).offset = none := hoffset
          rw [hnone, hcategory]
          exact iff_of_false (by decide) (by decide)
    | @malformed d offset hcode hslot hoffset =>
        have hcategory : (Fault.ofDiagnostic d).category = .malformedSpecifier :=
          congrArg Code.category hcode
        refine ⟨i, hslot, ?_, ?_, ?_, fun b hok => absurd hok (huncompiled b)⟩
        · rw [Template.Blames, hcategory]
          exact ⟨⟨ps, hordered, hreads⟩, hplacement⟩
        · rw [hcategory]
          exact iff_of_false (by decide) (Nat.ne_of_lt hi)
        · have hsome : (Fault.ofDiagnostic d).offset = some offset := hoffset
          exact iff_of_true (congrArg Option.isSome hsome) hcategory
  · obtain ⟨p, hp, i, hi, hname, hoffset, hblames, hearlier⟩ := t.exists_blames hvalues hb hf
    obtain ⟨hcause, hmissing, hmalformed⟩ := Template.blames_of_placement hb hp hblames
    refine ⟨i, hname, hcause, ?_, ?_, ?_⟩
    · exact iff_of_false hmissing (Nat.ne_of_lt hi)
    · rw [hoffset]
      exact iff_of_false (by decide) hmalformed
    · intro b' hb'
      cases hb.symm.trans hb'
      exact hearlier

/-- A reference supplies a text for a width. Its slot is named, and not that of the text. -/
theorem Renderer.renderForms_blames_referring_slot :
    ∃ r, Renderer.make false true 1 = .ok r ∧
      let t : Template := ⟨[[], [':'], [], []], [.int 5, .ref (.int 2), .text ['b']], rfl⟩
      (∀ v ∈ t.values, v.Unformatted) ∧ ∃ f, (r.renderForms t false).1 = .error (.fault f) ∧
        f.category = .invalidWidth ∧ f.slot = some 1 ∧ t.Blames f 1 := by
  obtain ⟨r, hr⟩ : ∃ r, Renderer.make false true 1 = .ok r := ⟨_, rfl⟩
  let t : Template := ⟨[[], [':'], [], []], [.int 5, .ref (.int 2), .text ['b']], rfl⟩
  have hvalues : ∀ v ∈ t.values, v.Unformatted := by
    intro v hv
    simp only [t, List.mem_cons, List.not_mem_nil, or_false] at hv
    rcases hv with rfl | rfl | rfl
    · trivial
    · trivial
    · trivial
  obtain ⟨f, hf, hcategory, hslot⟩ : ∃ f, ((r.after []).renderForms t false).1 =
      .error (.fault f) ∧ f.category = .invalidWidth ∧ f.slot = some 1 := by
    cases hr
    exact ⟨_, rfl, rfl, rfl⟩
  obtain ⟨i, hi, hblames, -⟩ := Renderer.renderForms_blames hr [] hvalues hf
  cases hslot.symm.trans hi
  exact ⟨r, hr, hvalues, f, hf, hcategory, hslot, hblames⟩

end SlotText
