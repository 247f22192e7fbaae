import SlotText.Proofs.Specifier.Fused

/-!
# The slots of a blueprint

A placement names the slot of its value and the slots that supply its width and its precision.
These slots follow one another, and the next placement goes on behind them. So the placements of
a blueprint take all slots of the template in order, each of them once.
-/
namespace SlotText

namespace Placement

/-- The slots that a placement takes, in the order in which their values are needed. -/
def slots (p : Placement) : List Int :=
  p.slot :: (p.widthSlot.toList ++ p.precisionSlot.toList)

/-- The slots for width and precision are the next ones behind the slot of the value. -/
structure Consecutive (p : Placement) : Prop where
  width : ∀ i, p.widthSlot = some i → i = p.slot + 1
  precision : ∀ i, p.precisionSlot = some i →
    i = p.slot + 1 + (if p.widthSlot.isSome then 1 else 0)

/-- Placements whose slots follow one another, from slot `n` up to slot `m`. -/
inductive InOrder : Nat → List Placement → Nat → Prop
  | nil (n : Nat) : InOrder n [] n
  | cons {n m : Nat} {p : Placement} {ps : List Placement} : p.slot = n → p.Consecutive →
      InOrder (n + p.consumed) ps m → InOrder n (p :: ps) m

/-- The placement some slots further on. -/
def shift (k : Int) (p : Placement) : Placement :=
  { p with
    slot := p.slot + k
    widthSlot := p.widthSlot.map (· + k)
    precisionSlot := p.precisionSlot.map (· + k) }

theorem shift_zero (p : Placement) : p.shift 0 = p := by
  simp [shift]

theorem map_shift_zero (ps : List Placement) : ps.map (shift 0) = ps := by
  simp [funext shift_zero]

theorem shift_ofSpecifier (k slot : Int) (spec : Specifier) (tail : Text) :
    (ofSpecifier slot spec tail).shift k = ofSpecifier (slot + k) spec tail := by
  cases hw : spec.width <;> cases hp : spec.precision <;>
    simp [shift, ofSpecifier, hw, hp, Amount.absorbed] <;> omega

variable {p : Placement} {ps : List Placement} {n m : Nat}

theorem mem_slots_of_width {i : Int} (h : p.widthSlot = some i) : i ∈ p.slots := by
  simp [slots, h]

theorem mem_slots_of_precision {i : Int} (h : p.precisionSlot = some i) : i ∈ p.slots := by
  simp [slots, h]

theorem Consecutive.slots_eq (h : p.Consecutive) (hn : p.slot = n) :
    p.slots = (List.range' n p.consumed).map Int.ofNat := by
  obtain ⟨hw, hp⟩ := h
  rw [hn] at hw hp
  cases hws : p.widthSlot with
  | none =>
      rw [hws] at hp
      cases hps : p.precisionSlot with
      | none => simp [slots, consumed, absorbed, hws, hps, hn]
      | some j => simp [slots, consumed, absorbed, hws, hps, hn, hp j hps, List.range'_succ]
  | some i =>
      rw [hws] at hp
      cases hps : p.precisionSlot with
      | none => simp [slots, consumed, absorbed, hws, hps, hn, hw i hws, List.range'_succ]
      | some j =>
          simp [slots, consumed, absorbed, hws, hps, hn, hw i hws, hp j hps, List.range'_succ]

/-- The slot of an amount has a place behind the slot of the value. -/
theorem Consecutive.exists_position {j : Int} (h : p.Consecutive)
    (hj : p.widthSlot = some j ∨ p.precisionSlot = some j) :
    ∃ k : Nat, j = p.slot + 1 + k ∧ k + 2 ≤ p.consumed := by
  rcases hj with hj | hj
  · refine ⟨0, by rw [h.width j hj, Int.natCast_zero, Int.add_zero], ?_⟩
    rw [consumed, absorbed, hj, Option.isSome_some, if_pos rfl]
    omega
  · refine ⟨if p.widthSlot.isSome then 1 else 0, ?_, ?_⟩
    · rw [h.precision j hj]
      split <;> rfl
    · rw [consumed, absorbed, hj, Option.isSome_some, if_pos rfl]
      omega

theorem InOrder.le (h : InOrder n ps m) : n ≤ m := by
  induction h with
  | nil n => exact Nat.le_refl n
  | cons _ _ _ ih => omega

theorem InOrder.slots_eq (h : InOrder n ps m) :
    ps.flatMap slots = (List.range' n (m - n)).map Int.ofNat := by
  induction h with
  | nil n => simp
  | cons hn hp h ih =>
      rename_i n m p ps
      have hle := h.le
      have hsplit : m - n = p.consumed + (m - (n + p.consumed)) := by omega
      rw [List.flatMap_cons, hp.slots_eq hn, ih, hsplit, ← List.map_append, List.range'_append_1]

theorem consecutive_ofSpecifier (slot : Int) (spec : Specifier) (tail : Text) :
    (ofSpecifier slot spec tail).Consecutive := by
  constructor
  · intro i hi
    simp only [ofSpecifier, Option.ite_none_right_eq_some, Option.some.injEq] at hi
    exact hi.2.symm
  · intro i hi
    simp only [ofSpecifier, Option.ite_none_right_eq_some, Option.some.injEq] at hi
    rw [← hi.2]
    cases hw : spec.width <;> simp [ofSpecifier, hw, Amount.absorbed]

theorem read_consecutive {slot count : Int} {literal : Text} {following : List Text}
    (h : read slot count literal following = .ok p) :
    p.slot = slot ∧ p.Consecutive ∧ p.absorbed ≤ following.length := by
  rcases Grammar.read_cases h with ⟨-, rfl⟩ | ⟨rest, -, rfl⟩ |
    ⟨rest, g, spec, tail, left, -, -, hs, rfl⟩
  · exact ⟨rfl, ⟨by simp, by simp⟩, Nat.zero_le _⟩
  · exact ⟨rfl, ⟨by simp, by simp⟩, Nat.zero_le _⟩
  · obtain ⟨taken, hf, hn, -⟩ := hs.fused
    refine ⟨rfl, consecutive_ofSpecifier slot spec tail, ?_⟩
    rw [absorbed_ofSpecifier, ← hn, hf, List.length_append]
    exact Nat.le_add_right ..

end Placement

namespace Blueprint
open Placement

/-- The placements of some slots go on behind the slots that are absorbed already. -/
theorem placementsFrom_inOrder {count : Int} {slot skip : Nat} {literals : List Text}
    {ps : List Placement} (h : placementsFrom count slot skip literals = .ok ps)
    (hskip : skip ≤ literals.length) : InOrder (slot + skip) ps (slot + literals.length) := by
  induction literals generalizing slot skip ps with
  | nil =>
      cases Nat.le_zero.mp hskip
      cases h
      exact .nil slot
  | cons literal following ih =>
      have hlast : slot + (literal :: following).length = slot + 1 + following.length := by
        rw [List.length_cons]
        omega
      rw [hlast]
      cases skip with
      | succ skip =>
          have hfirst : slot + (skip + 1) = slot + 1 + skip := by omega
          rw [hfirst]
          exact ih h (Nat.le_of_succ_le_succ hskip)
      | zero =>
          rw [placementsFrom] at h
          obtain ⟨p, hp, h⟩ := Outcome.bind_eq_ok.mp h
          obtain ⟨ps', hps, h⟩ := Outcome.bind_eq_ok.mp h
          cases h
          obtain ⟨hslot, hconsecutive, habsorbed⟩ := read_consecutive hp
          have hnext : slot + 0 + p.consumed = slot + 1 + p.absorbed := by
            rw [consumed]
            omega
          exact .cons hslot hconsecutive (hnext ▸ ih hps habsorbed)

theorem ofSegments_inOrder {segments : List Text} {b : Blueprint}
    (h : ofSegments segments = .ok b) :
    InOrder 0 b.placements b.slotCount ∧ segments.length = b.slotCount + 1 := by
  cases segments with
  | nil => cases h
  | cons head literals =>
      rw [ofSegments] at h
      obtain ⟨ps, hps, h⟩ := Outcome.bind_eq_ok.mp h
      cases h
      have h := placementsFrom_inOrder hps (Nat.zero_le _)
      rw [Nat.zero_add, Nat.zero_add] at h
      exact ⟨h, rfl⟩

/-- The placements of a blueprint take every slot once, in order. -/
theorem ofSegments_slots {segments : List Text} {b : Blueprint}
    (h : ofSegments segments = .ok b) :
    b.placements.flatMap slots = (List.range b.slotCount).map Int.ofNat := by
  rw [(ofSegments_inOrder h).1.slots_eq, Nat.sub_zero, List.range_eq_range']

end Blueprint

end SlotText
