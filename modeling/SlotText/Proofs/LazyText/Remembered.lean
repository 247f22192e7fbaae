import SlotText.LazyText
import SlotText.Proofs.BlueprintCache.Recency
import SlotText.Proofs.Rendering.Forms
import Mathlib.Data.Fintype.Card

/-!
# What a lazy text remembers

A lazy text shares its renderer with everything else that is rendered there, so between two accesses
to it the cache may have been filled with other templates or cleared. What it gives does not depend
on this. A run is a list of steps, each an access to the lazy text or a call of its renderer, and
every access gives what the form that it asks for was at the start of the run.

Of each form, what is remembered is what rendering the template gives. This holds of a new lazy
text, and every step keeps it up. So a form that was rendered once is not rendered again, and a
template that cannot be rendered is tried again at every access.
-/
namespace SlotText

/-- The text of a template in one of the two forms. -/
def Template.form (t : Template) (colors : Bool) : Outcome Text :=
  (t.render colors).map (·.form colors)

namespace LazyText

/-- What can be asked of a lazy text. -/
inductive Request where
  | plain
  | decorated
  | form (colors : Bool)
  | natural
  | shown
  | length
  | hash
  | equals (s : Text)

inductive Reply where
  | text (s : Text)
  | length (n : Nat)
  | hash (n : Int)
  | equal (b : Bool)
  deriving DecidableEq, Repr

namespace Request

/-- Whether it takes the decorated form to reply. -/
def colors : Request → Bool
  | decorated => true
  | form colors => colors
  | _ => false

/-- The reply that is read off the form. -/
def reply (textHash : Text → Int) (q : Request) (s : Text) : Reply :=
  match q with
  | plain | decorated | form _ | natural => .text s
  | shown => .text ("FormattedString(".toList ++ Text.quoted s ++ [')'])
  | length => .length s.length
  | hash => .hash (textHash s)
  | equals s' => .equal (s == s')

end Request

def perform (textHash : Text → Int) (t : LazyText) (r : Renderer) : Request → Access Reply
  | .plain => (t.plain r).map .text
  | .decorated => (t.decorated r).map .text
  | .form colors => (t.form r colors).map .text
  | .natural => (t.plain r).map .text
  | .shown => (t.shown r).map .text
  | .length => (t.length r).map .length
  | .hash => (t.hashed r textHash).map .hash
  | .equals s => (t.equals r (.text s)).map .equal

/-- A form, if it is remembered. -/
def remembered? (t : LazyText) (colors : Bool) : Option Text :=
  if colors then t.decorated? else t.plain?

def remember (t : LazyText) (colors : Bool) (s : Text) : LazyText :=
  if colors then { t with decorated? := some s } else { t with plain? := some s }

/-- A lazy text and the renderer that it belongs to. -/
structure Session where
  text : LazyText
  renderer : Renderer

/-- One step of a run. The calls render other templates, or clear the cache. -/
inductive Step where
  | access (q : Request)
  | call (call : Renderer.Call)

def Step.request? : Step → Option Request
  | access q => some q
  | call _ => none

variable {textHash : Text → Int} {t : LazyText} {r : Renderer} {q : Request} {colors : Bool}
variable {s : Text} {e : Failure} {template : Template}

theorem Access.map_map {α β γ : Type} (f : α → β) (g : β → γ) (a : Access α) :
    (a.map f).map g = a.map (g ∘ f) := by
  obtain ⟨o, t, r⟩ := a
  cases o with
  | error e => rfl
  | ok a => rfl

/-- Every access takes one of the forms and reads the reply off it. -/
theorem perform_eq (textHash : Text → Int) (t : LazyText) (r : Renderer) (q : Request) :
    t.perform textHash r q = (t.form r q.colors).map (q.reply textHash) := by
  cases q with
  | plain => rfl
  | decorated => rfl
  | form colors => rfl
  | natural => rfl
  | shown => exact Access.map_map _ _ _
  | length => exact Access.map_map _ _ _
  | hash => exact Access.map_map _ _ _
  | equals s => exact Access.map_map _ _ _

theorem form_of_remembered (h : t.remembered? colors = some s) (r : Renderer) :
    t.form r colors = ⟨.ok s, t, r⟩ := by
  cases colors with
  | true =>
      have hs : t.decorated? = some s := h
      simp only [form, decorated, hs, if_true]
  | false =>
      have hs : t.plain? = some s := h
      simp only [form, plain, hs, Bool.false_eq_true, if_false]

/-- A form that is not remembered is rendered, and remembered if that succeeds. -/
theorem form_of_not_remembered (h : t.remembered? colors = none) (r : Renderer) :
    t.form r colors = ⟨(r.render t.template (some colors)).1,
      match (r.render t.template (some colors)).1 with
      | .ok s => t.remember colors s
      | .error _ => t,
      (r.render t.template (some colors)).2⟩ := by
  cases colors with
  | true =>
      have hs : t.decorated? = none := h
      simp only [form, decorated, hs, if_true]
      split
      · next hrender => rw [hrender]; rfl
      · next hrender => rw [hrender]
  | false =>
      have hs : t.plain? = none := h
      simp only [form, plain, hs, Bool.false_eq_true, if_false]
      split
      · next hrender => rw [hrender]; rfl
      · next hrender => rw [hrender]

/-- An access to a remembered form does not depend on the renderer and changes nothing. -/
theorem perform_of_remembered (h : t.remembered? q.colors = some s) (textHash : Text → Int)
    (r : Renderer) : t.perform textHash r q = ⟨.ok (q.reply textHash s), t, r⟩ := by
  rw [perform_eq, form_of_remembered h]
  rfl

theorem template_remember (t : LazyText) (colors : Bool) (s : Text) :
    (t.remember colors s).template = t.template := by
  cases colors <;> rfl

theorem remembered?_remember (t : LazyText) (colors colors' : Bool) (s : Text) :
    (t.remember colors s).remembered? colors' =
      if colors' = colors then some s else t.remembered? colors' := by
  cases colors <;> cases colors' <;> rfl

theorem render_of_faithful (h : r.Faithful) (template : Template) (colors : Bool) :
    (r.render template (some colors)).1 = template.form colors ∧
      (r.render template (some colors)).2.Faithful := by
  obtain ⟨hforms, hfaithful⟩ := h.renderForms template colors
  exact ⟨congrArg (Except.map _) hforms, hfaithful⟩

namespace Session

def step (textHash : Text → Int) (σ : Session) : Step → Session
  | .access q =>
    let a := σ.text.perform textHash σ.renderer q
    ⟨a.text, a.renderer⟩
  | .call call => ⟨σ.text, (σ.renderer.perform call).2⟩

def after (textHash : Text → Int) (σ : Session) (steps : List Step) : Session :=
  steps.foldl (step textHash) σ

/-- What the accesses give, in order. -/
def replies (textHash : Text → Int) (σ : Session) : List Step → List (Outcome Reply)
  | [] => []
  | .access q :: steps => (σ.text.perform textHash σ.renderer q).outcome ::
      (σ.step textHash (.access q)).replies textHash steps
  | .call call :: steps => (σ.step textHash (.call call)).replies textHash steps

/-- The rendering of the template that an access makes: of the form that it takes, unless this is
remembered. -/
def rendering? (σ : Session) (q : Request) : Option (Outcome Text) :=
  match σ.text.remembered? q.colors with
  | some _ => none
  | none => some (σ.renderer.render σ.text.template (some q.colors)).1

/-- The lazy text is one of the template, and what it remembers is what rendering gives. -/
structure Recalls (template : Template) (σ : Session) : Prop where
  template_eq : σ.text.template = template
  faithful : σ.renderer.Faithful
  remembered : ∀ {colors s}, σ.text.remembered? colors = some s → template.form colors = .ok s

variable {σ : Session} {steps : List Step}

/-- An access whose form is not remembered renders the template, and the form is remembered if that
succeeds. -/
theorem step_access (textHash : Text → Int) (σ : Session) (q : Request) :
    (∃ s, σ.text.remembered? q.colors = some s ∧ σ.rendering? q = none ∧
      σ.step textHash (.access q) = σ) ∨
    ∃ o r, σ.text.remembered? q.colors = none ∧ σ.rendering? q = some o ∧
      σ.renderer.render σ.text.template (some q.colors) = (o, r) ∧
      σ.step textHash (.access q) = ⟨match o with
        | .ok s => σ.text.remember q.colors s
        | .error _ => σ.text, r⟩ := by
  cases hremembered : σ.text.remembered? q.colors with
  | some s =>
      refine .inl ⟨s, rfl, ?_, ?_⟩
      · rw [rendering?, hremembered]
      · rw [step, perform_of_remembered hremembered]
  | none =>
      refine .inr ⟨(σ.renderer.render σ.text.template (some q.colors)).1,
        (σ.renderer.render σ.text.template (some q.colors)).2, rfl, ?_, rfl, ?_⟩
      · rw [rendering?, hremembered]
      · rw [step, perform_eq, form_of_not_remembered hremembered]
        rfl

theorem recalls_new (h : r.Faithful) (template : Template) :
    Recalls template ⟨{ template }, r⟩ := by
  refine ⟨rfl, h, ?_⟩
  intro colors s hs
  cases colors <;> cases hs

theorem Recalls.render (h : σ.Recalls template) {o : Outcome Text}
    (hrender : σ.renderer.render σ.text.template (some colors) = (o, r)) :
    o = template.form colors ∧ r.Faithful := by
  have hform := render_of_faithful h.faithful template colors
  rw [← h.template_eq, hrender, h.template_eq] at hform
  exact hform

theorem Recalls.step (h : σ.Recalls template) (textHash : Text → Int) (st : Step) :
    (σ.step textHash st).Recalls template := by
  cases st with
  | call call => exact ⟨h.template_eq, h.faithful.perform call, h.remembered⟩
  | access q =>
      rcases step_access textHash σ q with ⟨s, -, -, hstep⟩ | ⟨o, r, -, -, hrender, hstep⟩
      · rw [hstep]
        exact h
      · obtain ⟨hform, hfaithful⟩ := h.render hrender
        rw [hstep]
        cases o with
        | error e => exact ⟨h.template_eq, hfaithful, h.remembered⟩
        | ok s =>
            refine ⟨(template_remember _ _ _).trans h.template_eq, hfaithful, ?_⟩
            intro colors s' hs'
            rw [remembered?_remember] at hs'
            split at hs'
            · next hcolors =>
                cases hs'
                rw [hcolors, hform]
            · exact h.remembered hs'

theorem Recalls.after (h : σ.Recalls template) (textHash : Text → Int) (steps : List Step) :
    (σ.after textHash steps).Recalls template := by
  induction steps generalizing σ with
  | nil => exact h
  | cons st steps ih => exact ih (h.step textHash st)

theorem Recalls.form (h : σ.Recalls template) (colors : Bool) :
    (σ.text.form σ.renderer colors).outcome = template.form colors := by
  cases hremembered : σ.text.remembered? colors with
  | some s => rw [form_of_remembered hremembered, h.remembered hremembered]
  | none => rw [form_of_not_remembered hremembered, ← (h.render (Prod.eta _).symm).1]

theorem Recalls.outcome (h : σ.Recalls template) (textHash : Text → Int) (q : Request) :
    (σ.text.perform textHash σ.renderer q).outcome =
      (template.form q.colors).map (q.reply textHash) := by
  rw [perform_eq, ← h.form]
  rfl

theorem Recalls.replies (h : σ.Recalls template) (textHash : Text → Int) (steps : List Step) :
    σ.replies textHash steps = (steps.filterMap Step.request?).map fun q =>
      (template.form q.colors).map (q.reply textHash) := by
  induction steps generalizing σ with
  | nil => rfl
  | cons st steps ih =>
      cases st with
      | call call => exact ih (h.step textHash (.call call))
      | access q =>
          have hlater := ih (h.step textHash (.access q))
          rw [Session.replies, h.outcome, hlater]
          rfl

end Session

end LazyText

end SlotText
