import SlotText.Proofs.Template.Slots
import SlotText.Proofs.Specifier.Refused
import Mathlib.Algebra.GroupWithZero.Nat

/-!
# Placements divide the slots

The placements of a blueprint stand in the order of their slots. Each of them begins where the
slots of the earlier ones end, and together they reach the last slot. An amount is deferred exactly
if the placement names a slot for it; once these slots have supplied their numbers, no amount is
left open. Where a slot is missing for an amount, it is the one behind the last.
-/
namespace SlotText

/-- What an amount is as long as its slot, if it has one, has not supplied it. -/
inductive Amount.Awaits : Option Int → Amount → Prop
  | deferred (slot : Int) : Awaits (some slot) .deferred
  | given (n : Nat) : Awaits none (.given n)
  | absent : Awaits none .absent

namespace Amount

variable {slot : Option Int} {a : Amount}

theorem Awaits.deferred_iff (h : a.Awaits slot) : a = .deferred ↔ slot.isSome = true := by
  cases h with
  | deferred slot => simp
  | given n => simp
  | absent => simp

theorem awaits_ite {i : Int} (h : a = .deferred ∨ a = .absent ∨ ∃ n : Nat, a = .given n) :
    a.Awaits (if a = .deferred then some i else none) := by
  rcases h with rfl | rfl | ⟨n, rfl⟩
  · exact .deferred i
  · exact .absent
  · exact .given n

/-- A number for the slot, if there is one, leaves nothing to wait for. -/
theorem Awaits.getD_ne_deferred (h : a.Awaits slot) {n : Option Int}
    (hn : n.isSome = slot.isSome) : (n.map Amount.given).getD a ≠ .deferred := by
  cases n with
  | some n => simp
  | none =>
      intro ha
      have hslot := h.deferred_iff.mp ha
      rw [← hn] at hslot
      cases hslot

end Amount

namespace Grammar

theorem Measured.deferred_or_given {a b : Ahead} {ds : Text} {m : Amount}
    (h : Measured a ds m b) : m = .deferred ∨ ∃ n : Nat, m = .given n := by
  cases h with
  | digits _ _ _ => exact .inr ⟨_, rfl⟩
  | zero _ => exact .inr ⟨0, rfl⟩
  | deferred _ _ => exact .inl rfl

theorem Pointed.deferred_or_given {a b : Ahead} {part : Text} {m : Amount}
    (h : Pointed a part m b) : m = .deferred ∨ m = .absent ∨ ∃ n : Nat, m = .given n := by
  cases h with
  | absent _ => exact .inr (.inl rfl)
  | point hm => exact hm.deferred_or_given.imp_right .inr

theorem Aligned.exists_fill {part fill rest : Text} {a : Alignment}
    (h : Aligned part fill a rest) : ∃ c, fill = [c] := by
  cases h with
  | filled c _ _ => exact ⟨c, rfl⟩
  | bare _ _ => exact ⟨' ', rfl⟩
  | absent _ _ => exact ⟨' ', rfl⟩

end Grammar

namespace Placement
open Grammar

/-- Once the slots of a placement have supplied its amounts, a value can be laid out by it. -/
structure Bindable (p : Placement) : Prop where
  fill : ∃ c, p.spec.fill = [c]
  width : p.spec.width.Awaits p.widthSlot
  width_ne : p.spec.width ≠ .absent
  precision : p.spec.precision.Awaits p.precisionSlot

variable {p : Placement} {ps : List Placement} {n m : Nat}

theorem bindable_plain (slot : Int) (tail : Text) (escaped : Bool) :
    Bindable { slot, tail, escaped } :=
  ⟨⟨' ', rfl⟩, .given 0, by simp, .absent⟩

theorem bindable_ofSpecifier {literal tail : Text} {following left : List Text} {g : Parts}
    {spec : Specifier} (h : Specified literal following g spec tail left) (slot : Int) :
    (ofSpecifier slot spec tail).Bindable := by
  obtain ⟨-, aligned, -, -, -, width, precision, -, -, -, -⟩ := h
  have hwidth := width.deferred_or_given
  refine ⟨aligned.exists_fill, ?_, ?_, ?_⟩
  · exact Amount.awaits_ite (hwidth.imp_right .inr)
  · intro habsent
    rw [ofSpecifier] at habsent
    rcases hwidth with hw | ⟨n, hw⟩
    · cases hw.symm.trans habsent
    · cases hw.symm.trans habsent
  · exact Amount.awaits_ite precision.deferred_or_given

theorem read_bindable {slot count : Int} {literal : Text} {following : List Text}
    (h : read slot count literal following = .ok p) : p.Bindable := by
  rcases read_cases h with ⟨-, rfl⟩ | ⟨rest, -, rfl⟩ | ⟨rest, g, spec, tail, left, -, -, hs, rfl⟩
  · exact bindable_plain slot literal false
  · exact bindable_plain slot (':' :: rest) true
  · exact bindable_ofSpecifier hs slot

theorem Bindable.exists_width (h : p.Bindable) {w : Option Int}
    (hw : w.isSome = p.widthSlot.isSome) (q : Option Int) :
    ∃ n, (p.spec.bind w q).width = .given n := by
  have hwidth := h.width.getD_ne_deferred hw
  cases w with
  | some n => exact ⟨n, rfl⟩
  | none =>
      cases hspec : p.spec.width with
      | given n => exact ⟨n, hspec⟩
      | absent => exact absurd hspec h.width_ne
      | deferred => exact absurd hspec hwidth

/-- With a number for every slot that is named, the specifier is bound and has a width. -/
theorem Bindable.bind (h : p.Bindable) {w q : Option Int} (hw : w.isSome = p.widthSlot.isSome)
    (hq : q.isSome = p.precisionSlot.isSome) :
    (p.spec.bind w q).isBound = true ∧ ∃ n, (p.spec.bind w q).effective.width = .given n := by
  have hwidth := h.width.getD_ne_deferred hw
  have hprecision := h.precision.getD_ne_deferred hq
  refine ⟨(Specifier.isBound_iff _).mpr ⟨hwidth, hprecision⟩, ?_⟩
  rw [Specifier.width_effective]
  exact h.exists_width hw q

theorem Consecutive.lt (h : p.Consecutive) {i : Int}
    (hi : p.widthSlot = some i ∨ p.precisionSlot = some i) :
    p.slot < i ∧ i < p.slot + p.consumed := by
  rcases hi with hi | hi
  · have := h.width i hi
    rw [consumed, absorbed, hi]
    simp only [Option.isSome_some, if_true]
    omega
  · have := h.precision i hi
    rw [consumed, absorbed, hi]
    simp only [Option.isSome_some, if_true]
    split at this
    · next hw =>
        rw [if_pos hw]
        omega
    · next hw =>
        rw [if_neg hw]
        omega

theorem InOrder.consecutive (h : InOrder n ps m) : ∀ p ∈ ps, p.Consecutive := by
  induction h with
  | nil n => simp
  | cons _ hp _ ih => exact List.forall_mem_cons.mpr ⟨hp, ih⟩

/-- The first slot of a placement comes after those that the earlier placements take. -/
theorem InOrder.slot_eq_sum (h : InOrder n ps m) {k : Nat} (hk : ps[k]? = some p) :
    p.slot = n + ((ps.take k).map consumed).sum := by
  induction h generalizing k with
  | nil n => simp at hk
  | cons hn hp h ih =>
      cases k with
      | zero =>
          cases hk
          simp [hn]
      | succ k =>
          have hslot := ih hk
          rw [hslot, List.take_succ_cons, List.map_cons, List.sum_cons]
          omega

theorem InOrder.sum_eq (h : InOrder n ps m) : n + (ps.map consumed).sum = m := by
  induction h with
  | nil n => simp
  | cons _ _ _ ih =>
      rw [List.map_cons, List.sum_cons, ← ih]
      omega

theorem InOrder.le_slot (h : InOrder n ps m) : ∀ p ∈ ps, (n : Int) ≤ p.slot := by
  induction h with
  | nil n => simp
  | cons hn _ _ ih =>
      refine List.forall_mem_cons.mpr ⟨by omega, ?_⟩
      intro p hp
      have hle := ih p hp
      omega

/-- Of two placements one ends before the other begins, unless they have the same slot. -/
theorem InOrder.apart (h : InOrder n ps m) : ∀ p ∈ ps, ∀ q ∈ ps,
    p.slot + p.consumed ≤ q.slot ∨ q.slot + q.consumed ≤ p.slot ∨ p.slot = q.slot := by
  induction h with
  | nil n => simp
  | cons hn _ h ih =>
      intro p hp q hq
      rcases List.mem_cons.mp hp with rfl | hp'
      · rcases List.mem_cons.mp hq with rfl | hq'
        · exact .inr (.inr rfl)
        · have hle := h.le_slot q hq'
          left
          omega
      · rcases List.mem_cons.mp hq with rfl | hq'
        · have hle := h.le_slot p hp'
          right
          left
          omega
        · exact ih p hp' q hq'

/-- A slot that is absorbed is not the slot of a placement. -/
theorem InOrder.absorbed_ne (h : InOrder n ps m) : ∀ p ∈ ps, ∀ q ∈ ps, ∀ i,
    p.widthSlot = some i ∨ p.precisionSlot = some i → i ≠ q.slot := by
  intro p hp q hq i hi
  have hlt := (h.consecutive p hp).lt hi
  have hpos : 0 < q.consumed := by
    rw [consumed]
    omega
  rcases h.apart p hp q hq with h | h | h
  · omega
  · omega
  · omega

end Placement

namespace Blueprint
open Placement

/-- A placement of a blueprint has been read from the literals behind its slot. -/
theorem exists_read {count : Int} {slot skip : Nat} {literals : List Text} {ps : List Placement}
    (h : placementsFrom count slot skip literals = .ok ps) :
    ∀ p ∈ ps, ∃ slot literal following, read slot count literal following = .ok p := by
  induction literals generalizing slot skip ps with
  | nil =>
      cases h
      simp
  | cons literal following ih =>
      cases skip with
      | succ skip => exact ih h
      | zero =>
          rw [placementsFrom] at h
          obtain ⟨p, hp, h⟩ := Outcome.bind_eq_ok.mp h
          obtain ⟨ps', hps, h⟩ := Outcome.bind_eq_ok.mp h
          cases h
          exact List.forall_mem_cons.mpr ⟨⟨slot, literal, following, hp⟩, ih hps⟩

theorem ofSegments_bindable {segments : List Text} {b : Blueprint}
    (h : ofSegments segments = .ok b) : ∀ p ∈ b.placements, p.Bindable := by
  cases segments with
  | nil => cases h
  | cons head literals =>
      rw [ofSegments] at h
      obtain ⟨ps, hps, h⟩ := Outcome.bind_eq_ok.mp h
      cases h
      intro p hp
      obtain ⟨slot, literal, following, hread⟩ := exists_read hps p hp
      exact read_bindable hread

theorem slot_of_missingArgument {segments : List Text} {f : Fault}
    (h : ofSegments segments = .error (.fault f)) (hf : f.category = .missingArgument) :
    f.slot = some (segments.length - 1) := by
  rcases failsOnly_ofSegments segments _ h with ⟨-, hnone⟩ | ⟨i, -, hrefused⟩
  · cases hnone
  · cases hrefused with
    | missing _ hslot _ => exact hslot
    | malformed hcode _ _ =>
        rw [Fault.ofDiagnostic, hcode] at hf
        cases hf

/-- The placements of a blueprint divide the slots in order. Their amounts are deferred exactly
where they name slots for them, and are known once these slots have supplied numbers. A template
that lacks a slot lacks the one behind its last. -/
theorem ofSegments_partition (segments : List Text) :
    (∀ b, ofSegments segments = .ok b →
      segments.length = b.slotCount + 1 ∧ (b.placements.map consumed).sum = b.slotCount ∧
      ∀ (k : Nat) (p : Placement), b.placements[k]? = some p →
        p.slot = ((b.placements.take k).map consumed).sum ∧
        (∀ i, p.widthSlot = some i → i = p.slot + 1) ∧
        (∀ i, p.precisionSlot = some i → i = p.slot + if p.widthSlot.isSome then 2 else 1) ∧
        (∀ q ∈ b.placements, p.widthSlot ≠ some q.slot ∧ p.precisionSlot ≠ some q.slot) ∧
        (p.spec.width = .deferred ↔ p.widthSlot.isSome = true) ∧
        (p.spec.precision = .deferred ↔ p.precisionSlot.isSome = true) ∧
        ∀ w q : Option Int, w.isSome = p.widthSlot.isSome → q.isSome = p.precisionSlot.isSome →
          (p.spec.bind w q).isBound = true ∧
          ∃ n, (p.spec.bind w q).effective.width = .given n) ∧
    ∀ f, ofSegments segments = .error (.fault f) → f.category = .missingArgument →
      f.slot = some (segments.length - 1) := by
  refine ⟨?_, fun f => slot_of_missingArgument⟩
  intro b hb
  obtain ⟨hordered, hlength⟩ := ofSegments_inOrder hb
  have hsum := hordered.sum_eq
  rw [Nat.zero_add] at hsum
  refine ⟨hlength, hsum, ?_⟩
  intro k p hk
  have hp := List.mem_of_getElem? hk
  have hconsecutive := hordered.consecutive p hp
  have hbindable := ofSegments_bindable hb p hp
  have hslot := hordered.slot_eq_sum hk
  have hne := hordered.absorbed_ne p hp
  refine ⟨by simpa using hslot, hconsecutive.width, ?_, ?_, hbindable.width.deferred_iff,
    hbindable.precision.deferred_iff, fun w q => hbindable.bind⟩
  · intro i hi
    rw [hconsecutive.precision i hi]
    split
    · omega
    · omega
  · intro q hq
    constructor
    · intro hi
      exact hne q hq _ (.inl hi) rfl
    · intro hi
      exact hne q hq _ (.inr hi) rfl

/-- The first placement takes three of four slots. Without the last two literals its precision
lacks a slot. -/
theorem ofSegments_partition_deferred :
    (∃ b, ofSegments [[], ":>".toList, ".".toList, "e; ".toList, ":5".toList] = .ok b ∧
      b.placements.map consumed = [3, 1] ∧ (b.placements.map consumed).sum = b.slotCount) ∧
    ∃ f, ofSegments [[], ":>".toList, ".".toList] = .error (.fault f) ∧ f.slot = some 2 := by
  constructor
  · obtain ⟨b, hb⟩ : ∃ b, ofSegments [[], ":>".toList, ".".toList, "e; ".toList, ":5".toList] =
        .ok b := ⟨_, rfl⟩
    obtain ⟨-, hsum, -⟩ := (ofSegments_partition _).1 b hb
    refine ⟨b, hb, ?_, hsum⟩
    cases hb
    rfl
  · obtain ⟨f, hf, hcategory⟩ : ∃ f, ofSegments [[], ":>".toList, ".".toList] =
        .error (.fault f) ∧ f.category = .missingArgument := ⟨_, rfl, rfl⟩
    exact ⟨f, hf, (ofSegments_partition _).2 f hf hcategory⟩

end Blueprint

end SlotText
