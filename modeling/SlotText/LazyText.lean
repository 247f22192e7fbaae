import SlotText.Renderer

/-!
# Lazy texts

A template that is rendered when its text is first asked for. The two forms are remembered
separately, and only once they have been rendered; a failure is not remembered and comes back at
every access.
-/
namespace SlotText

structure LazyText where
  template : Template
  plain? : Option Text := none
  decorated? : Option Text := none

namespace LazyText

/-- The outcome of an access, and what text and renderer are afterwards. -/
structure Access (α : Type) where
  outcome : Outcome α
  text : LazyText
  renderer : Renderer

def Access.map {α β : Type} (f : α → β) (a : Access α) : Access β :=
  ⟨a.outcome.map f, a.text, a.renderer⟩

def plain (t : LazyText) (r : Renderer) : Access Text :=
  match t.plain? with
  | some s => ⟨.ok s, t, r⟩
  | none => match r.render t.template (some false) with
    | (.ok s, r) => ⟨.ok s, { t with plain? := some s }, r⟩
    | (.error e, r) => ⟨.error e, t, r⟩

def decorated (t : LazyText) (r : Renderer) : Access Text :=
  match t.decorated? with
  | some s => ⟨.ok s, t, r⟩
  | none => match r.render t.template (some true) with
    | (.ok s, r) => ⟨.ok s, { t with decorated? := some s }, r⟩
    | (.error e, r) => ⟨.error e, t, r⟩

/-- One of the two forms. -/
def form (t : LazyText) (r : Renderer) (colors : Bool) : Access Text :=
  if colors then t.decorated r else t.plain r

def shown (t : LazyText) (r : Renderer) : Access Text :=
  (t.plain r).map fun s => "FormattedString(".toList ++ Text.quoted s ++ [')']

def length (t : LazyText) (r : Renderer) : Access Nat := (t.plain r).map List.length

/-- The hash of the plain form, by the hash that texts have. -/
def hashed (t : LazyText) (r : Renderer) (hash : Text → Int) : Access Int := (t.plain r).map hash

/-- Only texts and formatted texts can be equal to a lazy text, by their plain forms. For any
other value nothing is rendered. -/
def equals (t : LazyText) (r : Renderer) (v : Value) : Access Bool :=
  match v with
  | .text s => (t.plain r).map (· == s)
  | .formatted p _ =>
    let a := t.plain r
    { a with outcome := a.outcome.bind fun s => p.map (s == ·) }
  | _ => ⟨.ok false, t, r⟩

end LazyText

end SlotText
