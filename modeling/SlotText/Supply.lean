import SlotText.Value.Text
import SlotText.Diagnostic.Message

/-!
# Supplies

The values for the slots of a template, handed out by index or in order. A value that is a
reference stands for the value of another slot, and references are followed until a value is
reached that is none. The trail records the slots visited, so a chain that returns to one of them
is refused; a chain without a return visits every slot at most once, which bounds its length.
-/
namespace SlotText

/-- The slots visited while references are followed, the first one in front. -/
structure Trail where
  origin : Int
  path : List Int
  deriving DecidableEq, Repr

namespace Trail

def start (origin : Int) : Trail := ⟨origin, [origin]⟩

def push (t : Trail) (slot : Int) : Trail := { t with path := t.path ++ [slot] }

def contains (t : Trail) (slot : Int) : Bool := t.path.contains slot

/-- The number of references followed. -/
def depth (t : Trail) : Int := t.path.length - 1

/-- The trail with the slot that closes a cycle. -/
def cyclePath (t : Trail) (slot : Int) : List Int := t.path ++ [slot]

theorem contains_iff (t : Trail) (slot : Int) : t.contains slot = true ↔ slot ∈ t.path := by
  simp [contains]

end Trail

/-- Values with the index of the next one to hand out. -/
structure Supply where
  values : List Value
  position : Nat := 0

namespace Supply

/-- The slot that a reference names, with what it holds. -/
def target? (values : List Value) : Value → Option (Nat × Value)
  | .int n => if n < 0 then none else (values[n.toNat]?).map fun v => (n.toNat, v)
  | _ => none

/-- Follows references from a value that was reached by a trail. Every step visits a new slot,
so as many steps as there are slots suffice. -/
def follow (values : List Value) : Nat → Trail → Value → Outcome Value
  | fuel, trail, .ref target =>
    match target? values target with
    | none => Outcome.refuse
      (Diagnostic.invalidReference (.position trail.origin) target.shown (.position values.length))
    | some (i, v) =>
      let closed := (trail.cyclePath i).map Index.position
      if (i : Int) = trail.origin then
        Outcome.refuse (Diagnostic.selfReference (.position trail.origin) closed)
      else if trail.contains i then
        Outcome.refuse (Diagnostic.referenceCycle (.position trail.origin) closed)
      else match fuel with
        | 0 => Outcome.refuse (Diagnostic.referenceCycle (.position trail.origin) closed)
        | fuel + 1 => follow values fuel (trail.push i) v
  | _, _, v => .ok v

/-- The value of a slot, with references followed. An index that no slot has may be any number. -/
def resolveIn (values : List Value) (i : Int) : Outcome Value :=
  match target? values (.int i) with
  | none => Outcome.refuse (Diagnostic.missingArgument (.number i) (.position values.length))
  | some (_, v) => follow values values.length (.start i) v

def resolve (s : Supply) (i : Int) : Outcome Value := resolveIn s.values i

/-- The value of the next slot in order, its index, and the supply after it. -/
def next (s : Supply) : Outcome ((Nat × Value) × Supply) := do
  let v ← s.resolve s.position
  return ((s.position, v), { s with position := s.position + 1 })

end Supply

end SlotText
