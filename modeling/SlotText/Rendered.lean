import SlotText.Number.Text
import SlotText.Number.Shape
import SlotText.Value.Dump
import SlotText.Style.Painted

/-!
# Rendered values

A piece of output in two forms: plain, and decorated with styles where a dump has them. Widths
are measured on the plain form, and both forms get the same padding.
-/
namespace SlotText

structure Rendered where
  plain : Text
  decorated : Text
  deriving DecidableEq, Repr

namespace Rendered

/-- The same text in both forms. -/
def of (s : Text) : Rendered := ⟨s, s⟩

def length (r : Rendered) : Nat := r.plain.length

def append (a b : Rendered) : Rendered := ⟨a.plain ++ b.plain, a.decorated ++ b.decorated⟩

/-- The same text around both forms. -/
def pad (r : Rendered) (left right : Text) : Rendered :=
  ⟨left ++ r.plain ++ right, left ++ r.decorated ++ right⟩

/-- Copies of a fill, as many as a text can hold. -/
def fillOf (fill : Text) (n : Int) : Outcome Text :=
  if Text.longest < n then .error .fillCountTooLarge
  else if Text.longest < n * fill.length then .error .fillTooLong
  else .ok (fill.times n.toNat)

/-- Fills a piece up to a width. In the centre the left side gets the smaller half. -/
def align (r : Rendered) (width : Int) (alignment : Alignment) (fill : Text) :
    Outcome Rendered :=
  let deficit := width - r.length
  if deficit ≤ 0 then .ok r
  else match alignment with
    | .left => do
      let right ← fillOf fill deficit
      return r.pad [] right
    | .center => do
      let left ← fillOf fill (deficit / 2)
      let right ← fillOf fill (deficit - deficit / 2)
      return r.pad left right
    | .right => do
      let left ← fillOf fill deficit
      return r.pad left []

end Rendered

namespace Value

/-- The dump of a value, with everything highlighted that stands out. -/
def inspect (v : Value) (layOut decorate : Bool) : Rendered :=
  let s := v.dump layOut
  ⟨s, if decorate then s.highlighted else s⟩

/-- The text of a value under a conversion, before it is shaped and aligned. Only finite numbers
are converted; every other value has its natural text. -/
def convert (v : Value) (spec : Specifier) (decorate : Bool) : Outcome Rendered :=
  if spec.conversion = .inspection then .ok (v.inspect spec.pretty decorate)
  else match v.number? with
    | some n =>
      if n.isFinite then (n.convert spec.conversion (spec.precision ≠ .absent)).map .of
      else v.plain.map .of
    | .none => v.plain.map .of

/-- A value laid out by a specifier whose amounts are known. -/
def layOut (v : Value) (spec : Specifier) (decorate : Bool) : Outcome Rendered := do
  let spec := spec.effective
  let r ← v.convert spec decorate
  if v.isNumeric && spec.conversion ≠ .inspection then
    let shaped ← Shaped.of spec v.isFinite r.plain
    if shaped.zeroPadded then return .of shaped.text
    (Rendered.of shaped.text).align spec.targetWidth spec.alignment spec.fill
  else r.align spec.targetWidth spec.alignment spec.fill

end Value

end SlotText
