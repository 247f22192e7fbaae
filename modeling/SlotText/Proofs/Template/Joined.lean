import SlotText.Template.Basic
import SlotText.Proofs.Specifier.Extended

/-!
# Joined templates

Two templates are joined by making one literal of the last literal of the first and the head of the
second. The head becomes a part of the last tail if the last placement is sealed: what it is read
from goes on with text that belongs to the tail already, so that no rule for what lies ahead looks
at the text appended. Then the blueprint of the whole has the placements of both.
-/
namespace SlotText
open Grammar

namespace Placement

/-- The placement with more text behind it. -/
def extend (s : Text) (p : Placement) : Placement := { p with tail := p.tail ++ s }

/-- The literals of a placement end with text of its tail, or with what closes its specifier. -/
inductive Sealed (p : Placement) : List Text → Prop
  | plain {literal : Text} : literal ≠ [] → ¬literal.Begins (· = ':') → Sealed p [literal]
  | escaped {literals : List Text} : p.escaped = true → Sealed p literals
  | ended {literal : Text} {following : List Text} {g : Parts} :
      Specified literal following g p.spec p.tail [] → g.close ++ p.tail ≠ [] →
      Sealed p (literal :: following)

variable {p : Placement} {group : List Text} {s : Text}

theorem Occupies.extend (h : p.Occupies group) (hsealed : p.Sealed group)
    (hs : ¬s.Begins IsAlignment) : (p.extend s).Occupies (group.modifyLast (· ++ s)) := by
  have hread := h
  cases h with
  | plain slot hc =>
      cases hsealed with
      | plain hne _ => exact .plain slot (Text.not_begins_append hc fun hnil => absurd hnil hne)
      | escaped he => cases he
      | ended hspecified _ =>
          obtain ⟨opening, -⟩ := hspecified
          exact absurd (by rw [opening]; rfl) hc
  | escaped slot rest => exact .escaped slot (rest ++ s)
  | @specified slot rest tail taken g spec hc _ _ _ =>
      cases hsealed with
      | plain _ hcolon => exact absurd rfl hcolon
      | escaped he => cases he
      | ended hspecified hend =>
          have hplacement : read slot 0 (':' :: rest) taken = .ok (.ofSpecifier slot spec tail) :=
            read_eq_ok_iff.mpr ⟨rfl, taken, [], (List.append_nil taken).symm, hread⟩
          rw [read_of_colon hc] at hplacement
          obtain ⟨hw, hp⟩ := Reading.length_le_of_placement hplacement hspecified
          obtain ⟨rest', following', hliterals, hc', hs'⟩ := hspecified.extend hend hs hc
          rw [hliterals]
          exact .specified slot hc' hs' hw hp

end Placement

namespace Blueprint
open Placement

/-- The placements of both, those of the second behind the slots of the first. -/
def join (a b : Blueprint) : Blueprint where
  head := if a.placements = [] then a.head ++ b.head else a.head
  placements :=
    a.placements.modifyLast (extend b.head) ++ b.placements.map (shift a.slotCount)
  slotCount := a.slotCount + b.slotCount

variable {literals : List Text} {ps : List Placement} {p : Placement} {s : Text}

theorem Divided.ne_nil {n : Nat} (h : Divided n literals ps) (hps : ps ≠ []) : literals ≠ [] := by
  cases h with
  | nil _ => exact absurd rfl hps
  | cons _ hp _ => exact List.append_ne_nil_of_left_ne_nil hp.ne_nil _

theorem Divided.extend (h : Divided 0 literals (ps ++ [p]))
    (hsealed : p.Sealed (literals.drop p.slot.toNat)) (hs : ¬s.Begins IsAlignment) :
    Divided 0 (literals.modifyLast (· ++ s)) (ps ++ [p.extend s]) := by
  obtain ⟨l₁, l₂, rfl, h₁, h₂⟩ := h.exists_of_append
  cases h₂ with
  | @cons _ _ group rest _ hslot hp hrest =>
      cases hrest
      have hdrop : p.slot.toNat = l₁.length := by omega
      rw [hdrop, List.drop_left, List.append_nil] at hsealed
      have hlast : (l₁ ++ (group ++ [])).modifyLast (· ++ s) =
          l₁ ++ (group.modifyLast (· ++ s) ++ []) := by
        rw [List.append_nil, List.append_nil,
          List.modifyLast_append_of_right_ne_nil _ _ _ hp.ne_nil]
      rw [hlast]
      exact h₁.append (.cons hslot (hp.extend hsealed hs) (.nil _))

end Blueprint

namespace Template
open Blueprint Placement

theorem length_modifyLast {α : Type} (f : α → α) (l : List α) :
    (l.modifyLast f).length = l.length := by
  rcases List.eq_nil_or_concat l with rfl | ⟨l, x, rfl⟩
  · rfl
  · rw [List.concat_eq_append, List.modifyLast_concat, List.length_append, List.length_append]
    rfl

/-- The last literal of one list and the first of another become one literal. -/
def joinSegments (segments segments' : List Text) : List Text :=
  segments.modifyLast (· ++ segments'.headD []) ++ segments'.tail

theorem joinSegments_cons {head s : Text} {literals literals' : List Text} (h : literals ≠ []) :
    joinSegments (head :: literals) (s :: literals') =
      head :: (literals.modifyLast (· ++ s) ++ literals') :=
  congrArg (· ++ literals') (List.modifyLast_append_of_right_ne_nil _ [head] literals h)

/-- The templates in one. -/
def join (a b : Template) : Template where
  segments := joinSegments a.segments b.segments
  values := a.values ++ b.values
  length_segments := by
    rw [joinSegments, List.length_append, length_modifyLast, List.length_tail, List.length_append,
      a.length_segments, b.length_segments]
    omega

/-- The last placement, if there is one, is sealed. -/
def Sealed (t : Template) : Prop :=
  ∀ b, ofSegments t.segments = .ok b → ∀ p ∈ b.placements.getLast?,
    p.Sealed (t.segments.drop (p.slot.toNat + 1))

/-- The blueprint of the whole is made of the blueprints of both. -/
theorem ofSegments_joinSegments {segments segments' : List Text} {ba bb : Blueprint}
    (ha : ofSegments segments = .ok ba) (hb : ofSegments segments' = .ok bb)
    (hsealed : ∀ p ∈ ba.placements.getLast?, p.Sealed (segments.drop (p.slot.toNat + 1)))
    (hs : ¬bb.head.Begins IsAlignment) :
    ofSegments (joinSegments segments segments') = .ok (ba.join bb) := by
  obtain ⟨literals, rfl, hps, hcount⟩ := exists_divided ha
  obtain ⟨literals', rfl, hqs, hcount'⟩ := exists_divided hb
  have hshift := hqs.shift literals.length
  rw [Int.natCast_zero, Int.sub_zero] at hshift
  obtain ⟨head, ps, slotCount⟩ := ba
  dsimp only at hps hcount hsealed
  subst hcount
  rcases List.eq_nil_or_concat ps with rfl | ⟨ps, p, rfl⟩
  · cases hps
    refine ofSegments_eq_ok_iff.mpr ⟨_, hshift, ?_⟩
    rw [Blueprint.join, if_pos rfl, hcount', List.length_nil, Nat.zero_add]
    rfl
  · rw [List.concat_eq_append] at hps hsealed ⊢
    have hne := List.append_ne_nil_of_right_ne_nil ps (List.cons_ne_nil p [])
    have hlast := hps.extend (hsealed p List.getLast?_concat) hs
    have hrest : Divided (0 + (literals.modifyLast (· ++ bb.head)).length) literals'
        (bb.placements.map (shift literals.length)) := by
      rwa [Nat.zero_add, length_modifyLast]
    rw [joinSegments_cons (hps.ne_nil hne)]
    refine ofSegments_eq_ok_iff.mpr ⟨_, hlast.append hrest, ?_⟩
    rw [Blueprint.join, if_neg hne, hcount', List.modifyLast_concat, List.length_append,
      length_modifyLast]

end Template

end SlotText
