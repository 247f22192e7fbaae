import SlotText.Supply
import SlotText.Template.Basic
import SlotText.Template.Blueprint
import SlotText.Rendered

/-!
# Rendering

A blueprint and a list of values make a text. The values are taken in order: for each placement
the value to lay out, then its width and its precision if they are deferred. The first step that
fails ends the rendering, and nothing is rendered in part.
-/
namespace SlotText

/-- The number that a width or precision is read as. -/
def Value.amount? : Value → Option Int
  | .int n => if n < 0 then .none else some n
  | _ => .none

/-- Checks a value supplied as an amount. -/
def Value.toAmount (v : Value) (slot : Int) (refusal : Index → Text → Outcome Diagnostic) :
    Outcome Int :=
  match v.amount? with
  | some n => .ok n
  | .none => do
    let s ← v.shown
    Outcome.refuse (refusal (.position slot) s)

namespace Supply

/-- The next value as an amount. -/
def nextAmount (s : Supply) (refusal : Index → Text → Outcome Diagnostic) :
    Outcome (Int × Supply) := do
  let ((slot, v), s) ← s.next
  let n ← v.toAmount slot refusal
  return (n, s)

/-- The next value as an amount, if one is wanted. -/
def nextAmountIf (s : Supply) (wanted : Bool) (refusal : Index → Text → Outcome Diagnostic) :
    Outcome (Option Int × Supply) :=
  if wanted then do
    let (n, s) ← s.nextAmount refusal
    return (some n, s)
  else .ok (none, s)

end Supply

namespace Placement

/-- Lays out the next value of a supply. -/
def render (p : Placement) (decorate : Bool) (s : Supply) : Outcome (Rendered × Supply) := do
  let ((_, v), s) ← s.next
  let (width, s) ← s.nextAmountIf p.widthSlot.isSome Diagnostic.invalidWidth
  let (precision, s) ← s.nextAmountIf p.precisionSlot.isSome Diagnostic.invalidPrecision
  let r ← v.layOut (p.spec.bind width precision) decorate
  return (r.append (.of p.tail), s)

end Placement

namespace Blueprint

def renderPlacements (decorate : Bool) : List Placement → Supply → Outcome Rendered
  | [], _ => .ok (.of [])
  | p :: ps, s => do
    let (r, s) ← p.render decorate s
    let rest ← renderPlacements decorate ps s
    return r.append rest

/-- The text of a blueprint with some values. -/
def render (b : Blueprint) (values : List Value) (decorate : Bool) : Outcome Rendered := do
  let r ← renderPlacements decorate b.placements { values }
  return (Rendered.of b.head).append r

end Blueprint

/-- The form of a rendering that is asked for. -/
def Rendered.form (r : Rendered) (decorated : Bool) : Text :=
  if decorated then r.decorated else r.plain

/-- Compiles and renders a template. -/
def Template.render (t : Template) (decorate : Bool) : Outcome Rendered := do
  let b ← Blueprint.ofSegments t.segments
  b.render t.values decorate

/-- A template as a value: all that shows of it are its two renderings. -/
def Template.toValue (t : Template) : Value :=
  .formatted ((t.render false).map (·.plain)) ((t.render true).map (·.decorated))

end SlotText
