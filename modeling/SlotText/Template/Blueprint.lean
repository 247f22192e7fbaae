import SlotText.Template.Placement

/-!
# Blueprints

The literals of a template, compiled: the text before the first slot and a placement for every
slot that is not absorbed by an earlier one. A blueprint depends on the literals only, so one of
them serves every list of values.
-/
namespace SlotText

structure Blueprint where
  head : Text
  placements : List Placement
  slotCount : Nat
  deriving DecidableEq, Repr

namespace Blueprint

/-- The placements of the slots from `slot` on. The first `skip` of them are absorbed already. -/
def placementsFrom (count : Int) : Nat → Nat → List Text → Outcome (List Placement)
  | _, _, [] => .ok []
  | slot, skip + 1, _ :: following => placementsFrom count (slot + 1) skip following
  | slot, 0, literal :: following => do
    let p ← Placement.read slot count literal following
    let ps ← placementsFrom count (slot + 1) p.absorbed following
    return p :: ps

/-- Compiles the literals of a template. -/
def ofSegments : List Text → Outcome Blueprint
  | [] => .error .noSegment
  | head :: literals => do
    let placements ← placementsFrom literals.length 0 0 literals
    return { head, placements, slotCount := literals.length }

/-- The literal behind a slot and those that follow it. A negative slot counts from the end, and
the first literals then follow the last ones. -/
def literalAfter? (segments : List Text) (slot : Int) : Option (Text × List Text) :=
  let i := slot + 1
  let upcoming :=
    if 0 ≤ i then segments.drop i.toNat
    else if segments.length < i.natAbs then []
    else segments.drop (segments.length - i.natAbs) ++ segments
  match upcoming with
  | [] => none
  | literal :: following => some (literal, following)

/-- The placement of a single slot and the slot that comes after those it takes. -/
def placementAt (segments : List Text) (slot : Int) : Outcome (Placement × Int) :=
  match literalAfter? segments slot with
  | none => .error (if Text.isIndex (slot + 1) then .slotOutside else .indexTooLarge)
  | some (literal, following) => do
    let p ← Placement.read slot (segments.length - 1) literal following
    return (p, slot + p.consumed)

end Blueprint

end SlotText
