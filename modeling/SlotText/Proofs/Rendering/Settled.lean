import SlotText.Proofs.Rendering.Pieces
import SlotText.Proofs.Template.Partition
import SlotText.Proofs.Value.Layout

/-!
# What rendering ends with

Within bounds on its numbers, a template renders or is refused with a fault, whatever its literals
and its values are. The bounds concern runs of digits in the literals, whole numbers in the values,
and the amounts, written or supplied. There is one way to end with another failure: a slot holds a
decimal that its conversion cannot write. The failures are followed through the steps of rendering:
compiling, resolving the slots, reading amounts, and laying out.
-/
namespace SlotText

/-- The failure is a fault of the template. -/
def Failure.IsFault (e : Failure) : Prop := ∃ f, e = .fault f

/-- A slot holds a decimal that its conversion cannot write. -/
def Template.Unwritten (t : Template) (e : Failure) : Prop :=
  ∃ b p d, Blueprint.ofSegments t.segments = .ok b ∧ p ∈ b.placements ∧
    Supply.resolveIn t.values p.slot = .ok (.decimal d) ∧ d.Unwritten p.spec.conversion e

/-- The amounts can be indices, whether they are written or supplied by a slot. -/
structure Placement.Bounded (p : Placement) (values : List Value) : Prop where
  given : ∀ n, p.spec.width = .given n ∨ p.spec.precision = .given n → n ≤ Text.longest
  supplied : ∀ i n, p.widthSlot = some i ∨ p.precisionSlot = some i →
    Supply.resolveIn values i = .ok (.int n) → n ≤ Text.longest

/-- Runs of digits can be read, values can be written, and amounts can be indices. -/
structure Template.Bounded (t : Template) : Prop where
  runs : ∀ s ∈ t.segments, s.RunsWithin Numeral.longest
  values : ∀ v ∈ t.values, v.Writable
  placements : ∀ b, Blueprint.ofSegments t.segments = .ok b →
    ∀ p ∈ b.placements, p.Bounded t.values

namespace Supply

variable {values : List Value} {i : Nat}

/-- A chain of references that leads to no value is a fault, as its last target can be shown. -/
theorem failsOnly_resolveIn (hvalues : ∀ v ∈ values, v.Writable) (hi : i < values.length) :
    Outcome.FailsOnly Failure.IsFault (resolveIn values i) := by
  obtain ⟨path, e, he⟩ := exists_ends hi
  rw [he.resolveIn_eq hi]
  cases he with
  | value _ _ _ _ => exact Outcome.failsOnly_ok _
  | invalid _ _ hv _ =>
      rename_i target _ _ _
      have hwritable : (Value.ref target).Writable := hvalues _ (List.mem_of_getElem? hv)
      obtain ⟨shown, hs⟩ := Value.exists_shown target hwritable
      obtain ⟨d, hd, -⟩ := outcome_invalid values.length i path hs
      rw [hd]
      exact Outcome.failsOnly_error ⟨_, rfl⟩
  | closing _ _ _ _ =>
      rename_i t _ _ _ _
      obtain ⟨d, hd, -, -⟩ := outcome_closing values.length i path t
      rw [hd]
      exact Outcome.failsOnly_error ⟨_, rfl⟩

variable {slot : Option Int} {refusal : Index → Text → Outcome Diagnostic}

theorem failsOnly_amountAt (hvalues : ∀ v ∈ values, v.Writable)
    (hslot : ∀ j, slot = some j → ∃ i : Nat, i < values.length ∧ j = i)
    (hrefusal : ∀ (i : Nat) s, ∃ d, refusal (.position i) s = .ok d) :
    Outcome.FailsOnly Failure.IsFault (amountAt values slot refusal) := by
  cases slot with
  | none => exact Outcome.failsOnly_ok none
  | some j =>
      obtain ⟨i, hi, rfl⟩ := hslot j rfl
      refine (failsOnly_resolveIn hvalues hi).bind fun v hv => ?_
      refine Outcome.FailsOnly.bind ?_ fun n _ => Outcome.failsOnly_ok _
      unfold Value.toAmount
      split
      · exact Outcome.failsOnly_ok _
      · obtain ⟨s, hs⟩ := Value.exists_shown v (hvalues v (mem_of_resolveIn hi hv))
        obtain ⟨d, hd⟩ := hrefusal i s
        rw [hs, Outcome.ok_bind, hd]
        exact Outcome.failsOnly_error ⟨_, rfl⟩

/-- An amount is the number that its slot holds. -/
theorem amountAt_eq_ok {n : Option Int} (h : amountAt values slot refusal = .ok n) :
    n.isSome = slot.isSome ∧ ∀ k, n = some k →
      0 ≤ k ∧ ∃ i, slot = some i ∧ resolveIn values i = .ok (.int k) := by
  obtain ⟨hslot, hnonneg⟩ := amountAt_eq_ok_iff.mp h
  refine ⟨?_, ?_⟩
  · rw [← Option.isSome_map (f := fun k : Int => (.ok (.int k) : Outcome Value)), ← hslot,
      Option.isSome_map]
  · rintro k rfl
    obtain ⟨i, hi, hv⟩ := Option.map_eq_some_iff.mp hslot
    exact ⟨hnonneg k rfl, i, hi, hv⟩

end Supply

/-- An amount that was written or supplied within the bounds. -/
theorem Amount.Awaits.within {slot : Option Int} {a : Amount} (h : a.Awaits slot) {n : Option Int}
    (hn : ∀ k, n = some k → 0 ≤ k ∧ k ≤ Text.longest)
    (ha : ∀ k, a = .given k → k ≤ Text.longest) {k : Int}
    (hk : (n.map Amount.given).getD a = .given k) : 0 ≤ k ∧ k ≤ Text.longest := by
  cases n with
  | some m =>
      cases hk
      exact hn k rfl
  | none =>
      have hgiven : a = .given k := hk
      have hle := ha k hgiven
      cases h with
      | deferred slot => cases hgiven
      | absent => cases hgiven
      | given m =>
          cases hgiven
          exact ⟨Int.natCast_nonneg m, hle⟩

namespace Placement

variable {p : Placement} {values : List Value} {decorate : Bool}

/-- With its amounts, the specifier of a placement fits. -/
theorem Bindable.fits (h : p.Bindable) (hp : p.Bounded values) {w q : Option Int}
    (hw : Supply.amountAt values p.widthSlot Diagnostic.invalidWidth = .ok w)
    (hq : Supply.amountAt values p.precisionSlot Diagnostic.invalidPrecision = .ok q) :
    (p.spec.bind w q).Fits := by
  obtain ⟨hwsome, hw⟩ := Supply.amountAt_eq_ok hw
  obtain ⟨-, hq⟩ := Supply.amountAt_eq_ok hq
  obtain ⟨n, hn⟩ := h.exists_width hwsome q
  have hwidth : ∀ k, w = some k → 0 ≤ k ∧ k ≤ Text.longest := by
    intro k hk
    obtain ⟨hnonneg, i, hi, hvalue⟩ := hw k hk
    exact ⟨hnonneg, hp.supplied i k (.inl hi) hvalue⟩
  have hprecision : ∀ k, q = some k → 0 ≤ k ∧ k ≤ Text.longest := by
    intro k hk
    obtain ⟨hnonneg, i, hi, hvalue⟩ := hq k hk
    exact ⟨hnonneg, hp.supplied i k (.inr hi) hvalue⟩
  refine ⟨h.fill, ⟨n, hn, h.width.within hwidth (fun k hk => hp.given k (.inl hk)) hn⟩, ?_⟩
  intro k hk
  exact h.precision.within hprecision (fun k hk => hp.given k (.inr hk)) hk

/-- What a placement fails with, if its slots are there. -/
theorem failsOnly_renderBySlot (h : p.Bindable) (hp : p.Bounded values)
    (hvalues : ∀ v ∈ values, v.Writable)
    (hslots : ∀ j ∈ p.slots, ∃ i : Nat, i < values.length ∧ j = i) :
    Outcome.FailsOnly (fun e => e.IsFault ∨ ∃ d,
      Supply.resolveIn values p.slot = .ok (.decimal d) ∧ d.Unwritten p.spec.conversion e)
      (p.renderBySlot values decorate) := by
  have hwidthSlot : ∀ j, p.widthSlot = some j → ∃ i : Nat, i < values.length ∧ j = i := by
    intro j hj
    apply hslots
    simp [slots, hj]
  have hprecisionSlot : ∀ j, p.precisionSlot = some j → ∃ i : Nat, i < values.length ∧ j = i := by
    intro j hj
    apply hslots
    simp [slots, hj]
  obtain ⟨i, hi, hslot⟩ := hslots p.slot List.mem_cons_self
  unfold renderBySlot
  refine Outcome.FailsOnly.bind ?_ fun v hv => Outcome.FailsOnly.bind ?_ fun w hw =>
    Outcome.FailsOnly.bind ?_ fun q hq => Outcome.FailsOnly.bind ?_ fun _ _ =>
      Outcome.failsOnly_ok _
  · rw [hslot]
    exact (Supply.failsOnly_resolveIn hvalues hi).mono fun e he => .inl he
  · have hrefusal : ∀ (i : Nat) s, ∃ d, Diagnostic.invalidWidth (.position i) s = .ok d :=
      fun _ _ => ⟨_, rfl⟩
    exact (Supply.failsOnly_amountAt hvalues hwidthSlot hrefusal).mono fun e he => .inl he
  · have hrefusal : ∀ (i : Nat) s, ∃ d, Diagnostic.invalidPrecision (.position i) s = .ok d :=
      fun _ _ => ⟨_, rfl⟩
    exact (Supply.failsOnly_amountAt hvalues hprecisionSlot hrefusal).mono fun e he => .inl he
  · have hwritable : v.Writable := hvalues v (Supply.mem_of_resolveIn hi (hslot ▸ hv))
    intro e he
    obtain ⟨d, rfl, hd⟩ := (Value.layOut_eq_error_iff hwritable (h.fits hp hw hq)).mp he
    exact .inr ⟨d, hv, hd⟩

theorem not_unwritten_of_renderBySlot (h : p.Bindable) (hp : p.Bounded values) {r : Rendered}
    (hr : p.renderBySlot values decorate = .ok r) {d : Decimal}
    (hd : Supply.resolveIn values p.slot = .ok (.decimal d)) (e : Failure) :
    ¬d.Unwritten p.spec.conversion e := by
  obtain ⟨v, hv, hr⟩ := Outcome.bind_eq_ok.mp hr
  obtain ⟨w, hw, hr⟩ := Outcome.bind_eq_ok.mp hr
  obtain ⟨q, hq, hr⟩ := Outcome.bind_eq_ok.mp hr
  obtain ⟨piece, hpiece, -⟩ := Outcome.bind_eq_ok.mp hr
  cases hd.symm.trans hv
  intro hunwritten
  have hwritable : (Value.decimal d).Writable := trivial
  have herror : (Value.decimal d).layOut (p.spec.bind w q) decorate = .error e :=
    (Value.layOut_eq_error_iff hwritable (h.fits hp hw hq)).mpr ⟨d, rfl, hunwritten⟩
  cases hpiece.symm.trans herror

end Placement

namespace Template

variable {t : Template}

/-- Literals with a slot for each value are refused with a fault only. -/
theorem failsOnly_ofSegments (hruns : ∀ s ∈ t.segments, s.RunsWithin Numeral.longest) :
    Outcome.FailsOnly Failure.IsFault (Blueprint.ofSegments t.segments) := by
  intro e he
  rcases Blueprint.failsOnly_ofSegments t.segments e he with ⟨hnil, -⟩ | ⟨i, -, hrefused⟩
  · have hlength := t.length_segments
    rw [hnil] at hlength
    cases hlength
  · cases hrefused with
    | missing _ _ _ => exact ⟨_, rfl⟩
    | malformed _ _ _ => exact ⟨_, rfl⟩
    | tooLong n hs hlong => exact absurd (hruns _ hs) hlong

/-- A template within the bounds fails with a fault or with a decimal that is not written. -/
theorem Bounded.failsOnly (ht : t.Bounded) (decorate : Bool) :
    Outcome.FailsOnly (fun e => e.IsFault ∨ t.Unwritten e) (t.renderBySlot decorate) := by
  refine Outcome.FailsOnly.bind ?_ fun b hb => ?_
  · exact (failsOnly_ofSegments ht.runs).mono fun e he => .inl he
  · apply Outcome.failsOnly_foldlM
    intro p hp r
    have hslots := exists_of_mem_slots hb p hp
    have hbindable := Blueprint.ofSegments_bindable hb p hp
    have hbounded := ht.placements b hb p hp
    refine Outcome.FailsOnly.bind ?_ fun _ _ => Outcome.failsOnly_ok _
    refine (Placement.failsOnly_renderBySlot hbindable hbounded ht.values hslots).mono ?_
    rintro e (he | ⟨d, hd, he⟩)
    · exact .inl he
    · exact .inr ⟨b, p, d, hb, hp, hd, he⟩

/-- Once a template has rendered, all its decimals have been written. -/
theorem Bounded.not_unwritten (ht : t.Bounded) {decorate : Bool} {o : Rendered}
    (ho : t.renderBySlot decorate = .ok o) (e : Failure) : ¬t.Unwritten e := by
  rintro ⟨b, p, d, hb, hp, hd, he⟩
  obtain ⟨b', hb', hfold⟩ := Outcome.bind_eq_ok.mp ho
  cases hb.symm.trans hb'
  obtain ⟨r, r', hround⟩ := Outcome.exists_of_foldlM_eq_ok hfold p hp
  obtain ⟨piece, hpiece, -⟩ := Outcome.bind_eq_ok.mp hround
  have hbindable := Blueprint.ofSegments_bindable hb p hp
  have hbounded := ht.placements b hb p hp
  exact Placement.not_unwritten_of_renderBySlot hbindable hbounded hpiece hd e he

end Template

/-- Whatever a renderer was asked for before, a template within the bounds renders or is refused
with a fault, unless a slot holds a decimal that its conversion cannot write; then it never
renders. Every other finite number is converted, and the digits of a float end in every base. -/
theorem Renderer.renderPair_settled {colors caching : Bool} {capacity : Int} {r : Renderer}
    (hr : Renderer.make colors caching capacity = .ok r) (calls : List Renderer.Call)
    {t : Template} (ht : t.Bounded) :
    (((∃ o, ((r.after calls).renderPair t).1 = .ok o) ∧ ∀ e, ¬t.Unwritten e) ∨
      (∃ f, ((r.after calls).renderPair t).1 = .error (.fault f)) ∨
      ∃ e, ((r.after calls).renderPair t).1 = .error e ∧ t.Unwritten e) ∧
    (∀ (n : Number) (k : Conversion) (fixed : Bool) (e : Failure), n.isFinite = true →
      n.toValue.Writable →
      (n.convert k fixed = .error e ↔ ∃ d, n = .decimal d ∧ d.Unwritten k e)) ∧
    ∀ (k : Conversion) (base : Nat) (x : Binary64), k.base? = some base →
      Radix.FractionEnds base x := by
  refine ⟨?_, ?_, ?_⟩
  · have hfaithful := (faithful_make hr).after calls
    have hrender : ((r.after calls).renderPair t).1 = t.renderBySlot true :=
      (hfaithful.renderForms t true).1.trans (t.render_eq true)
    rw [hrender]
    cases ho : t.renderBySlot true with
    | ok o => exact .inl ⟨⟨o, rfl⟩, ht.not_unwritten ho⟩
    | error e =>
        rcases ht.failsOnly true e ho with ⟨f, rfl⟩ | he
        · exact .inr (.inl ⟨f, rfl⟩)
        · exact .inr (.inr ⟨e, rfl, he⟩)
  · intro n k fixed e hfinite hn
    exact Number.convert_eq_error_iff hfinite hn
  · intro k base x hk
    obtain ⟨-, -, heven⟩ := Conversion.base_bounds hk
    exact Radix.fractionEnds_of_even heven x

/-- A decimal whose width is supplied by the next slot, behind a template that is refused. -/
theorem Renderer.renderPair_settled_supplied_width :
    ∃ r, Renderer.make false true 1 = .ok r ∧
      let t : Template := ⟨[[], [':'], ['n']], [.decimal (.finite false 5 (-1)), .int 6], rfl⟩
      t.Bounded ∧ (∀ e, ¬t.Unwritten e) ∧
        ((r.after [.compile [[], [':']]]).renderPair t).1 = .ok (.of "   1st".toList) := by
  obtain ⟨r, hr⟩ : ∃ r, Renderer.make false true 1 = .ok r := ⟨_, rfl⟩
  have hbounded : Template.Bounded
      ⟨[[], [':'], ['n']], [.decimal (.finite false 5 (-1)), .int 6], rfl⟩ := by
    refine ⟨?_, ?_, ?_⟩
    · intro s hs
      apply Text.RunsWithin.of_length_le
      simp only [List.mem_cons, List.not_mem_nil, or_false] at hs
      rcases hs with rfl | rfl | rfl
      · decide
      · decide
      · decide
    · intro v hv
      simp only [List.mem_cons, List.not_mem_nil, or_false] at hv
      rcases hv with rfl | rfl
      · trivial
      · have hpow := Numeral.pow_ten_le (show 1 ≤ Numeral.longest by decide)
        exact Nat.lt_of_lt_of_le (show 6 < Nat.pow 10 1 by decide) hpow
    · intro b hb p hp
      cases hb
      cases List.mem_singleton.mp hp
      constructor
      · rintro n (h | h)
        · cases h
        · cases h
      · rintro i n (h | h) hn
        · cases h
          cases hn
          decide
        · cases h
  have hok : ((r.after [.compile [[], [':']]]).renderPair
      ⟨[[], [':'], ['n']], [.decimal (.finite false 5 (-1)), .int 6], rfl⟩).1 =
        .ok (.of "   1st".toList) := by
    cases hr
    rfl
  refine ⟨r, hr, hbounded, ?_, hok⟩
  rcases (renderPair_settled hr [.compile [[], [':']]] hbounded).1 with
    ⟨-, hwritten⟩ | ⟨f, hf⟩ | ⟨e, he, -⟩
  · exact hwritten
  · cases hok.symm.trans hf
  · cases hok.symm.trans he

namespace Template

variable {k : Conversion} {c : Char} {d : Decimal} {e : Failure}

/-- The template of a decimal with the letter of a conversion. -/
def converting (c : Char) (d : Decimal) : Template := ⟨[[], [':', c]], [.decimal d], rfl⟩

theorem ofSegments_converting (hc : Conversion.ofSymbol? c = some k) (d : Decimal) :
    Blueprint.ofSegments (converting c d).segments =
      .ok ⟨[], [{ slot := 0, spec := { conversion := k }, tail := [] }], 1⟩ := by
  have hsymbol := Conversion.symbol_of_ofSymbol? hc
  cases k with
  | natural => cases hsymbol
  | _ => cases hsymbol; rfl

theorem bounded_converting (hc : Conversion.ofSymbol? c = some k) (d : Decimal) :
    (converting c d).Bounded := by
  refine ⟨?_, ?_, ?_⟩
  · intro s hs
    apply Text.RunsWithin.of_length_le
    rcases List.mem_cons.mp hs with rfl | hs
    · decide
    · cases List.mem_singleton.mp hs
      simp [Numeral.longest]
  · intro v hv
    cases List.mem_singleton.mp hv
    trivial
  · intro b hb p hp
    cases hb.symm.trans (ofSegments_converting hc d)
    cases List.mem_singleton.mp hp
    constructor
    · rintro n (h | h)
      · cases h
        decide
      · cases h
    · rintro i n (h | h) _
      · cases h
      · cases h

/-- A decimal that the conversion cannot write is never rendered. -/
theorem render_converting (hc : Conversion.ofSymbol? c = some k) (hd : d.Unwritten k e)
    (decorate : Bool) : (converting c d).render decorate = .error e := by
  have hresolve : Supply.resolveIn [.decimal d] 0 = .ok (.decimal d) := rfl
  have hwritable : (Value.decimal d).Writable := trivial
  have hfits : Specifier.Fits { conversion := k } := by
    refine ⟨⟨' ', rfl⟩, ⟨0, rfl, by decide⟩, ?_⟩
    intro n hn
    cases hn
  have hlayout : (Value.decimal d).layOut { conversion := k } decorate = .error e :=
    (Value.layOut_eq_error_iff hwritable hfits).mpr ⟨d, rfl, hd⟩
  rw [render_eq, renderBySlot, ofSegments_converting hc d, Outcome.ok_bind,
    Blueprint.renderBySlot, List.foldlM_cons, Placement.renderBySlot]
  simp only [converting, hresolve, Outcome.ok_bind, Supply.amountAt, Specifier.bind_none_none,
    hlayout, Outcome.error_bind]

end Template

/-- The ordinal of a decimal with a single digit is too long, and a decimal that ends in a half is
beyond every float. Neither template renders, and neither is refused with a fault. -/
theorem Renderer.renderPair_unwritten_decimals :
    ∃ r, Renderer.make false false 0 = .ok r ∧
      (Template.converting 'n' (.finite false 1 5000)).Bounded ∧
      (r.renderPair (.converting 'n' (.finite false 1 5000))).1 = .error .numeralTooLong ∧
      (Template.converting 'x' (.finite false (Nat.pow 10 401 + 5) (-1))).Bounded ∧
      (r.renderPair (.converting 'x' (.finite false (Nat.pow 10 401 + 5) (-1)))).1 =
        .error .infiniteRatio := by
  have hordinal : (Decimal.finite false 1 5000).Unwritten .ordinalLower .numeralTooLong := by
    apply Decimal.Unwritten.ordinal rfl
    rw [Decimal.natAbs_nearestInt_finite, Decimal.roundHalfUp, if_pos (by decide),
      Decimal.raised_eq, Nat.one_mul]
    exact Numeral.pow_ten_le (by decide)
  have hradix : (Decimal.finite false (Nat.pow 10 401 + 5) (-1)).Unwritten .hexLower
      .infiniteRatio :=
    .radix rfl rfl (by decide +kernel) (by decide +kernel)
  refine ⟨{ colors := false, cache := none }, rfl, ?_, ?_, ?_, ?_⟩
  · exact Template.bounded_converting rfl _
  · exact Template.render_converting rfl hordinal true
  · exact Template.bounded_converting rfl _
  · exact Template.render_converting rfl hradix true

end SlotText
