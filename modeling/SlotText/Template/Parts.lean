import SlotText.Rendering

/-!
# Parts of a template

Segments of any type with values between them, as a record may hold them. They are a template when
all segments are texts. Otherwise they cannot be rendered, and what they are refused for is found
in the order of the work: compiling reads one literal after another up to the first that is not a
text, which either is searched for a specifier or would be fused with the literal before it. A
head that is not a text is noticed last of all, when the output is put together.
-/
namespace SlotText

namespace Template

structure Parts where
  segments : List Value
  values : List Value
  length_segments : segments.length = values.length + 1

namespace Parts

def of (segments values : List Value) : Outcome Parts :=
  if h : segments.length = values.length + 1 then .ok ⟨segments, values, h⟩
  else .error (.segmentCount segments.length values.length)

/-- What a value holds one after another, if it is a sequence. -/
def itemsOf (v : Value) : Outcome (List Value) :=
  match v.items? with
  | some xs => .ok xs
  | none => .error (.notIterable v.fullTypeName)

/-- The parts that a record holds in its fields `strings` and `values`. -/
def ofValue (v : Value) : Outcome Parts :=
  match v.field? "strings".toList, v.field? "values".toList with
  | some strings, some values => do
    let segments ← itemsOf strings
    let values ← itemsOf values
    of segments values
  | _, _ => .error (.notATemplate v.typeName)

/-- The texts at the front, and what comes after them. -/
def spanTexts : List Value → List Text × List Value
  | .text s :: vs => (s :: (spanTexts vs).1, (spanTexts vs).2)
  | vs => ([], vs)

theorem length_spanTexts (vs : List Value) :
    (spanTexts vs).1.length + (spanTexts vs).2.length = vs.length := by
  fun_induction spanTexts vs with
  | case1 s vs ih => simp only [List.length_cons]; omega
  | case2 vs => simp

/-- The template of the parts, if all segments are texts. -/
def template? (p : Parts) : Option Template :=
  if h : (spanTexts p.segments).2 = [] then
    some ⟨(spanTexts p.segments).1, p.values, by
      have := length_spanTexts p.segments
      rw [h, List.length_nil, Nat.add_zero] at this
      rw [this, p.length_segments]⟩
  else none

/-- What a segment that is not a text is refused for when it is searched. -/
def searchFailure : Value → Failure
  | .bytes _ => .bytesSearched
  | v => .notSearchable v.fullTypeName

/-- What reading the literals before one that is not a text ends with. A reading that runs out of
them would absorb that one. -/
def literalFailure (count : Int) (literals : List Text) (v : Value) : Failure :=
  match Blueprint.placementsFrom count 0 0 literals with
  | .ok _ => searchFailure v
  | .error (.fault f) =>
    if f.category = .missingArgument then .notFusible v.fullTypeName else .fault f
  | .error e => e

/-- What parts with a segment that is not a text are refused for. -/
def refusal (p : Parts) : Failure :=
  match p.segments with
  | [] => .noSegment
  | head :: literals => match spanTexts literals with
    | (texts, v :: _) => literalFailure literals.length texts v
    | (texts, []) => match (Blueprint.ofSegments ([] :: texts)).bind (·.render p.values false) with
      | .ok _ => .notJoinable head.fullTypeName
      | .error e => e

end Parts

end Template

end SlotText
