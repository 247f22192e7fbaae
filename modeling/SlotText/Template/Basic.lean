import SlotText.Value.Basic

/-!
# Templates

Literals with values between them. There is one literal more than there are values, so every
value has a literal before it and one after it, which may be empty.
-/
namespace SlotText

structure Template where
  segments : List Text
  values : List Value
  length_segments : segments.length = values.length + 1

namespace Template

def slotCount (t : Template) : Nat := t.values.length

/-- The template of some literals and values, if their numbers fit. -/
def of (segments : List Text) (values : List Value) : Outcome Template :=
  if h : segments.length = values.length + 1 then .ok ⟨segments, values, h⟩
  else .error (.segmentCount segments.length values.length)

end Template

end SlotText
