import SlotText.BlueprintCache
import SlotText.Template.Parts
import SlotText.Value.Key

/-!
# Renderers

A renderer has a default for colours and, unless it does without, a cache of blueprints. Every
operation returns its outcome together with the renderer afterwards; only the cache changes.
-/
namespace SlotText

structure Renderer where
  colors : Bool := false
  cache : Option BlueprintCache
  deriving DecidableEq, Repr

namespace Renderer

/-- A renderer without a cache ignores the capacity. -/
def make (colors caching : Bool) (capacity : Int) : Outcome Renderer :=
  if caching then (BlueprintCache.ofCapacity capacity).map fun c => { colors, cache := some c }
  else .ok { colors, cache := none }

def compile (r : Renderer) (segments : List Text) : Outcome Blueprint × Renderer :=
  match r.cache with
  | none => (Blueprint.ofSegments segments, r)
  | some c =>
    let (b, c) := c.request segments
    (b, { r with cache := some c })

def clear (r : Renderer) : Renderer := { r with cache := r.cache.map (·.clear) }

/-- Both forms of a template. -/
def renderForms (r : Renderer) (t : Template) (decorate : Bool) : Outcome Rendered × Renderer :=
  let (b, r) := r.compile t.segments
  (b.bind fun b => b.render t.values decorate, r)

def renderPair (r : Renderer) (t : Template) : Outcome Rendered × Renderer :=
  r.renderForms t true

/-- One form of a template; without a choice the renderer's default decides. -/
def render (r : Renderer) (t : Template) (colors : Option Bool) : Outcome Text × Renderer :=
  let decorate := colors.getD r.colors
  let (o, r) := r.renderForms t decorate
  (o.map (·.form decorate), r)

/-- Renders some literals and values; they are checked before the cache is asked. -/
def format (r : Renderer) (segments : List Text) (values : List Value) (colors : Option Bool) :
    Outcome Text × Renderer :=
  match Template.of segments values with
  | .ok t => r.render t colors
  | .error e => (.error e, r)

/-- Both forms of the template that some parts are. A cache is asked for any parts, provided that
all segments can be keys. What it would keep for parts of which only the head is not a text is left
out: here they are a miss each time. -/
def renderParts (r : Renderer) (p : Template.Parts) (decorate : Bool) :
    Outcome Rendered × Renderer :=
  match p.template?, r.cache with
  | some t, _ => r.renderForms t decorate
  | none, none => (.error p.refusal, r)
  | none, some c => match Value.checkKeys p.segments with
    | .ok _ => (.error p.refusal, { r with cache := some { c with misses := c.misses + 1 } })
    | .error e => (.error e, r)

/-- One form of the template that some parts are. -/
def renderPartsForm (r : Renderer) (p : Template.Parts) (colors : Option Bool) :
    Outcome Text × Renderer :=
  let decorate := colors.getD r.colors
  let (o, r) := r.renderParts p decorate
  (o.map (·.form decorate), r)

end Renderer

end SlotText
