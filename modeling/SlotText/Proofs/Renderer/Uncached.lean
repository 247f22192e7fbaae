import SlotText.Proofs.Renderer.Calls

/-!
# A cache is not seen

A renderer answers a run of calls one after another, and what it keeps in its cache depends on all
calls before: on what they compiled, and on what they displaced. Here the answers of such a run
are compared with those of a renderer that has no cache and is new at every call. They are the
same, call by call, for every capacity and also after calls that failed.

This is so because the segments of a template are texts. With segments that are not, a cache is
seen: it refuses those that cannot be keys.
-/
namespace SlotText.Renderer

/-- The answers to some calls, made one after another. -/
def answers (r : Renderer) : List Call → List Answer
  | [] => []
  | call :: calls => (r.perform call).1 :: (r.perform call).2.answers calls

variable {r s : Renderer}

theorem colors_compile (r : Renderer) (segments : List Text) :
    (r.compile segments).2.colors = r.colors := by
  unfold compile
  split
  · rfl
  · rfl

/-- No call changes what a renderer does by default. -/
theorem colors_perform (r : Renderer) (call : Call) : (r.perform call).2.colors = r.colors := by
  cases call with
  | format segments values colors =>
      cases ht : Template.of segments values with
      | error e => simp only [perform, format, ht]
      | ok t =>
          simp only [perform, format, ht]
          exact colors_compile r t.segments
  | render t colors => exact colors_compile r t.segments
  | renderPair t => exact colors_compile r t.segments
  | compile segments => exact colors_compile r segments
  | clear => rfl

theorem render_eq_of_faithful (hr : r.Faithful) (hs : s.Faithful) (hcolors : r.colors = s.colors)
    (t : Template) (colors : Option Bool) : (r.render t colors).1 = (s.render t colors).1 := by
  have hforms := (hr.renderForms t (colors.getD r.colors)).1
  have hforms' := (hs.renderForms t (colors.getD s.colors)).1
  rw [← hcolors] at hforms'
  simp only [render, ← hcolors, hforms, hforms']

/-- Two faithful renderers with the same default answer a call in the same way, whatever either of
them has in its cache. -/
theorem answer_eq_of_faithful (hr : r.Faithful) (hs : s.Faithful) (hcolors : r.colors = s.colors)
    (call : Call) : (r.perform call).1 = (s.perform call).1 := by
  cases call with
  | format segments values colors =>
      cases ht : Template.of segments values with
      | error e => simp only [perform, format, ht]
      | ok t =>
          have h := render_eq_of_faithful hr hs hcolors t colors
          simp only [perform, format, ht, h]
  | render t colors =>
      have h := render_eq_of_faithful hr hs hcolors t colors
      simp only [perform, h]
  | renderPair t =>
      have h := (hr.renderForms t true).1
      have h' := (hs.renderForms t true).1
      simp only [perform, renderPair, h, h']
  | compile segments =>
      have h := (hr.compile segments).1
      have h' := (hs.compile segments).1
      simp only [perform, h, h']
  | clear => rfl

theorem answers_eq_map (hr : r.Faithful) (hs : s.Faithful) (hcolors : r.colors = s.colors)
    (calls : List Call) : r.answers calls = calls.map fun call => (s.perform call).1 := by
  induction calls generalizing r with
  | nil => rfl
  | cons call calls ih =>
      have hanswer := answer_eq_of_faithful hr hs hcolors call
      have hcolors' := (colors_perform r call).trans hcolors
      rw [answers, List.map_cons, hanswer, ih (hr.perform call) hcolors']

theorem exists_make_caching (colors : Bool) {capacity : Int} (h : 0 < capacity) :
    ∃ r, make colors true capacity = .ok r ∧ r.colors = colors ∧ ∃ c, r.cache = some c := by
  have hpos : 0 < capacity.toNat := by omega
  have hcache : BlueprintCache.ofCapacity capacity =
      .ok { capacity := capacity.toNat, capacity_pos := hpos } := by
    rw [BlueprintCache.ofCapacity, dif_pos hpos]
  exact ⟨_, by rw [make, if_pos rfl, hcache]; rfl, rfl, _, rfl⟩

/-- A renderer with a cache of any capacity answers every call of a run as a new renderer without
a cache does. -/
theorem answers_eq_uncached (colors : Bool) {capacity : Int} (hcapacity : 0 < capacity)
    (n : Int) :
    ∃ r s, make colors true capacity = .ok r ∧ (∃ c, r.cache = some c) ∧
      make colors false n = .ok s ∧ s.cache = none ∧
      ∀ calls : List Call, r.answers calls = calls.map fun call => (s.perform call).1 := by
  obtain ⟨r, hr, hcolors, hcache⟩ := exists_make_caching colors hcapacity
  have hs : make colors false n = .ok { colors, cache := none } := rfl
  refine ⟨r, _, hr, hcache, hs, rfl, ?_⟩
  intro calls
  exact answers_eq_map (faithful_make hr) (faithful_make hs) hcolors calls

/-- A second template displaces the only entry, after a call that failed, and the entries are
dropped before the first template is asked for again. -/
theorem answers_eq_after_displacement :
    (0 : Int) < 1 ∧ ∃ r s, make true true 1 = .ok r ∧ make true false 0 = .ok s ∧
      r.answers [.compile [[], ":>3".toList], .format [[], [':']] [.int 7] none,
        .renderPair ⟨[[], []], [.int 7], rfl⟩, .clear,
        .format [[], ":>3".toList] [.int 7] none] =
      [.compile [[], ":>3".toList], .format [[], [':']] [.int 7] none,
        .renderPair ⟨[[], []], [.int 7], rfl⟩, .clear,
        .format [[], ":>3".toList] [.int 7] none].map fun call => (s.perform call).1 := by
  obtain ⟨r, s, hr, -, hs, -, hanswers⟩ := answers_eq_uncached true (show (0 : Int) < 1 by decide) 0
  exact ⟨by decide, r, s, hr, hs, hanswers _⟩

end SlotText.Renderer
