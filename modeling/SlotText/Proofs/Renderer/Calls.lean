import SlotText.Proofs.Outcome
import SlotText.Renderer

/-!
# Calls of a renderer

A renderer serves one call after another, and its cache is all that a call leaves behind. Every
blueprint in the cache is the one that compiling its literals gives. A request to the cache keeps
this up, so what is compiled through it is what compiling without it gives.
-/
namespace SlotText

namespace BlueprintCache

/-- Each entry is what compiling its literals gives. -/
def Faithful (c : BlueprintCache) : Prop :=
  ∀ e ∈ c.entries, Blueprint.ofSegments e.1 = .ok e.2

variable {c : BlueprintCache}

theorem Faithful.of_find? (h : c.Faithful) {segments : List Text} {b : Blueprint}
    (hb : c.find? segments = some b) : Blueprint.ofSegments segments = .ok b := by
  obtain ⟨l₁, l₂, hentries, -⟩ := List.lookup_eq_some_iff.mp hb
  exact h (segments, b) (by simp [hentries])

theorem faithful_ofCapacity {n : Int} (h : ofCapacity n = .ok c) : c.Faithful := by
  unfold ofCapacity at h
  split at h
  · cases h
    intro e he
    cases he
  · cases h

theorem faithful_clear (c : BlueprintCache) : c.clear.Faithful := by
  intro e he
  cases he

theorem Faithful.store (h : c.Faithful) {segments : List Text} {b : Blueprint}
    (hb : Blueprint.ofSegments segments = .ok b) : (c.store segments b).Faithful := by
  intro e he
  rcases List.mem_append.mp he with he | he
  · split at he
    · exact h e (List.mem_of_mem_drop he)
    · exact h e he
  · rw [List.mem_singleton.mp he]
    exact hb

theorem request_of_find? {segments : List Text} {b : Blueprint}
    (h : c.find? segments = some b) :
    c.request segments = (.ok b, { c with
      entries := without c.entries segments ++ [(segments, b)]
      hits := c.hits + 1 }) := by
  rw [request]
  simp only [h]

theorem Faithful.request (h : c.Faithful) (segments : List Text) :
    (c.request segments).1 = Blueprint.ofSegments segments ∧ (c.request segments).2.Faithful := by
  cases hf : c.find? segments with
  | some b =>
      have hb := h.of_find? hf
      rw [request_of_find? hf, hb]
      refine ⟨rfl, ?_⟩
      intro e he
      rcases List.mem_append.mp he with he | he
      · exact h e (List.mem_filter.mp he).1
      · rw [List.mem_singleton.mp he]
        exact hb
  | none =>
      rw [BlueprintCache.request]
      simp only [hf]
      cases hb : Blueprint.ofSegments segments with
      | error e => exact ⟨rfl, h⟩
      | ok b => exact ⟨rfl, Faithful.store h hb⟩

end BlueprintCache

namespace Renderer

/-- What a renderer can be asked for. -/
inductive Call where
  | format (segments : List Text) (values : List Value) (colors : Option Bool)
  | render (t : Template) (colors : Option Bool)
  | renderPair (t : Template)
  | compile (segments : List Text)
  | clear

inductive Answer where
  | text (o : Outcome Text)
  | forms (o : Outcome Rendered)
  | blueprint (o : Outcome Blueprint)
  | done

def perform (r : Renderer) : Call → Answer × Renderer
  | .format segments values colors =>
    let (o, r) := r.format segments values colors
    (.text o, r)
  | .render t colors =>
    let (o, r) := r.render t colors
    (.text o, r)
  | .renderPair t =>
    let (o, r) := r.renderPair t
    (.forms o, r)
  | .compile segments =>
    let (o, r) := r.compile segments
    (.blueprint o, r)
  | .clear => (.done, r.clear)

/-- The renderer after some calls. -/
def after (r : Renderer) (calls : List Call) : Renderer :=
  calls.foldl (fun r call => (r.perform call).2) r

def Faithful (r : Renderer) : Prop := ∀ c, r.cache = some c → c.Faithful

variable {r : Renderer}

theorem faithful_make {colors caching : Bool} {capacity : Int}
    (h : make colors caching capacity = .ok r) : r.Faithful := by
  cases caching with
  | false =>
      cases h
      intro c hc
      cases hc
  | true =>
      simp only [make, if_true] at h
      cases hc : BlueprintCache.ofCapacity capacity with
      | error e => simp [hc, Except.map] at h
      | ok c =>
          rw [hc] at h
          cases h
          intro c' hc'
          cases hc'
          exact BlueprintCache.faithful_ofCapacity hc

theorem Faithful.compile (h : r.Faithful) (segments : List Text) :
    (r.compile segments).1 = Blueprint.ofSegments segments ∧ (r.compile segments).2.Faithful := by
  cases hc : r.cache with
  | none =>
      simp only [Renderer.compile, hc]
      exact ⟨trivial, h⟩
  | some c =>
      simp only [Renderer.compile, hc]
      obtain ⟨hb, hf⟩ := (h c hc).request segments
      refine ⟨hb, ?_⟩
      intro c' hc'
      cases hc'
      exact hf

theorem faithful_clear (r : Renderer) : r.clear.Faithful := by
  intro c hc
  obtain ⟨c', -, rfl⟩ := Option.map_eq_some_iff.mp hc
  exact BlueprintCache.faithful_clear c'

theorem Faithful.renderForms (h : r.Faithful) (t : Template) (decorate : Bool) :
    (r.renderForms t decorate).1 = t.render decorate ∧ (r.renderForms t decorate).2.Faithful := by
  obtain ⟨hb, hf⟩ := h.compile t.segments
  refine ⟨?_, hf⟩
  rw [Renderer.renderForms, Template.render]
  simp only [hb]
  rfl

theorem Faithful.perform (h : r.Faithful) (call : Call) : (r.perform call).2.Faithful := by
  cases call with
  | format segments values colors =>
      cases ht : Template.of segments values with
      | error e =>
          simp only [Renderer.perform, Renderer.format, ht]
          exact h
      | ok t =>
          simp only [Renderer.perform, Renderer.format, ht]
          exact (h.renderForms t (colors.getD r.colors)).2
  | render t colors => exact (h.renderForms t (colors.getD r.colors)).2
  | renderPair t => exact (h.renderForms t true).2
  | compile segments => exact (h.compile segments).2
  | clear => exact faithful_clear r

theorem Faithful.after (h : r.Faithful) (calls : List Call) : (r.after calls).Faithful := by
  induction calls generalizing r with
  | nil => exact h
  | cons call calls ih => exact ih (h.perform call)

/-- Whatever was asked for before, a template is rendered as it is without any cache. -/
theorem renderForms_eq_render {colors caching : Bool} {capacity : Int}
    (hr : Renderer.make colors caching capacity = .ok r) (calls : List Call) (t : Template)
    (decorate : Bool) : ((r.after calls).renderForms t decorate).1 = t.render decorate := by
  have hfaithful := (faithful_make hr).after calls
  exact (hfaithful.renderForms t decorate).1

end Renderer

end SlotText
