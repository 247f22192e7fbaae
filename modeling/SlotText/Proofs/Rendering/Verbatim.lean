import SlotText.Proofs.Rendering.Pieces
import SlotText.Proofs.Value.Layout

/-!
# Text that stands for itself

Any text can stand behind a slot. Only a colon at its start would be read as the introduction of a
specifier, and a second colon prevents this. A value with nothing but such a text behind it is laid
out by the default specifier, which changes nothing about its natural text: the sign of a number is
taken off and put back, and a width of zero asks for no fill.
-/
namespace SlotText

/-- The literal that is read as the text itself: a colon at the start is doubled. -/
def Text.verbatim : Text → Text
  | ':' :: s => ':' :: ':' :: s
  | s => s

theorem Shaped.front_append_digits (s : Text) :
    front {} s ++ (sign {} s).2 = s := by
  unfold front sign
  split
  · rfl
  · rfl

theorem Shaped.of_default (finite : Bool) (s : Text) : Shaped.of {} finite s = .ok ⟨s, false⟩ := by
  have hdigits : withDigits {} finite s = .ok s := rfl
  have hfront : withFront {} finite s = .ok ⟨front {} s ++ (sign {} s).2, false⟩ := rfl
  rw [of_eq, hdigits, Outcome.ok_bind, hfront, front_append_digits]

namespace Value

variable {v : Value} {spec : Specifier} {s : Text}

/-- Without a conversion and a precision, numbers have their natural text like all other values. -/
theorem convert_natural (v : Value) (hc : spec.conversion = .natural)
    (hp : spec.precision = .absent) (decorate : Bool) :
    v.convert spec decorate = v.plain.map .of := by
  have hnumber : ∀ n : Number, n.convert .natural false = n.toValue.plain := by
    intro n
    cases n <;> rfl
  rw [convert, if_neg (by rw [hc]; decide), hc, hp]
  cases hn : v.number? with
  | none => rfl
  | some n =>
      have hv := eq_toValue_of_number? hn
      subst hv
      dsimp only
      split
      · exact congrArg (Except.map Rendered.of) (hnumber n)
      · rfl

theorem layOut_default (h : v.plain = .ok s) (decorate : Bool) :
    v.layOut {} decorate = .ok (.of s) := by
  have hconvert : v.convert {} decorate = .ok (.of s) := by
    rw [convert_natural v rfl rfl, h]
    rfl
  have halign : (Rendered.of s).align 0 .right [' '] = .ok (.of s) :=
    Rendered.align_of_le (Int.natCast_nonneg _) _ _
  have heffective : Specifier.effective {} = {} := rfl
  rw [layOut, heffective, hconvert, Outcome.ok_bind]
  dsimp only [Rendered.of]
  rw [Shaped.of_default, Outcome.ok_bind]
  split
  · exact halign
  · exact halign

end Value

namespace Placement

/-- The placement of a slot with a text that stands for itself. -/
def verbatim (literal : Text) (slot : Nat) : Placement :=
  { slot, tail := literal, escaped := decide (literal.Begins (· = ':')) }

theorem read_verbatim (slot : Nat) (count : Int) (literal : Text) (following : List Text) :
    read slot count literal.verbatim following = .ok (verbatim literal slot) := by
  by_cases h : literal.Begins (· = ':')
  · obtain ⟨s, rfl⟩ := Text.begins_eq_iff.mp h
    rfl
  · have hplain : literal.verbatim = literal := by
      unfold Text.verbatim
      split
      · exact absurd rfl h
      · rfl
    rw [hplain, Grammar.read_of_plain h, verbatim, decide_eq_false h]

theorem absorbed_verbatim (literal : Text) (slot : Nat) : (verbatim literal slot).absorbed = 0 :=
  rfl

theorem placementsFrom_verbatim (count : Int) (slot : Nat) (literals : List Text) :
    Blueprint.placementsFrom count slot 0 (literals.map Text.verbatim) =
      .ok ((literals.zipIdx slot).map fun l => verbatim l.1 l.2) := by
  induction literals generalizing slot with
  | nil => rfl
  | cons literal literals ih =>
      rw [List.map_cons, Blueprint.placementsFrom, read_verbatim, Outcome.ok_bind,
        absorbed_verbatim, ih, List.zipIdx_cons]
      rfl

variable {values : List Value} {decorate : Bool} {s : Text}

theorem renderBySlot_verbatim {slot : Nat} {v : Value} (hv : Supply.resolveIn values slot = .ok v)
    (hs : v.plain = .ok s) (literal : Text) :
    (verbatim literal slot).renderBySlot values decorate = .ok (.of (s ++ literal)) := by
  have hlaid : v.layOut ((verbatim literal slot).spec.bind none none) decorate = .ok (.of s) :=
    Value.layOut_default hs decorate
  exact renderBySlot_eq_ok_iff.mpr ⟨v, none, none, _, hv, rfl, rfl, hlaid, rfl⟩

/-- Each piece is the natural text of a value with the literal behind it. -/
theorem pieces_verbatim {slot : Nat} {literals texts : List Text}
    (hlength : texts.length = literals.length)
    (hplain : ∀ (i : Nat) (s : Text), texts[i]? = some s →
      ∃ v, Supply.resolveIn values (slot + i : Nat) = .ok v ∧ v.plain = .ok s) :
    Pieces values decorate ((literals.zipIdx slot).map fun l => verbatim l.1 l.2)
      (.of (List.zipWith (· ++ ·) texts literals).flatten) := by
  induction literals generalizing slot texts with
  | nil =>
      rw [List.length_eq_zero_iff.mp hlength]
      exact .nil
  | cons literal literals ih =>
      cases texts with
      | nil => cases hlength
      | cons s texts =>
          obtain ⟨v, hv, hs⟩ := hplain 0 s rfl
          have hrest := @ih (slot + 1) texts (Nat.succ.inj hlength) (by
            intro i s hi
            rw [Nat.succ_add_eq_add_succ]
            exact hplain (i + 1) s hi)
          have hpieces := Pieces.cons (renderBySlot_verbatim hv hs literal) hrest
          simpa [Rendered.append, Rendered.of, List.zipIdx_cons] using hpieces

end Placement

/-- Values with such literals behind them render to their natural texts and to the texts that the
literals stand for, in both forms. No slot supplies a width or a precision. -/
theorem Renderer.renderForms_verbatim {colors caching : Bool} {capacity : Int} {r : Renderer}
    (hr : Renderer.make colors caching capacity = .ok r) (calls : List Renderer.Call)
    (head : Text) (literals : List Text) {texts : List Text} {values : List Value}
    (hliterals : literals.length = values.length) (htexts : texts.length = values.length)
    (hplain : ∀ (i : Nat) (s : Text), texts[i]? = some s →
      ∃ v, Supply.resolveIn values i = .ok v ∧ v.plain = .ok s) (decorate : Bool) :
    (∃ h, ((r.after calls).renderForms
      ⟨head :: literals.map Text.verbatim, values, h⟩ decorate).1 =
        .ok (.of (head ++ (List.zipWith (· ++ ·) texts literals).flatten))) ∧
    ∃ b, Blueprint.ofSegments (head :: literals.map Text.verbatim) = .ok b ∧
      b.placements.length = values.length ∧ ∀ p ∈ b.placements, p.absorbed = 0 := by
  have hsegments : Blueprint.ofSegments (head :: literals.map Text.verbatim) =
      .ok ⟨head, (literals.zipIdx 0).map fun l => Placement.verbatim l.1 l.2,
        (literals.map Text.verbatim).length⟩ := by
    rw [Blueprint.ofSegments, Placement.placementsFrom_verbatim]
    rfl
  constructor
  · have hlength : (head :: literals.map Text.verbatim).length = values.length + 1 := by
      rw [List.length_cons, List.length_map, hliterals]
    refine ⟨hlength, ?_⟩
    have hpieces : Placement.Pieces values decorate
        ((literals.zipIdx 0).map fun l => Placement.verbatim l.1 l.2)
        (.of (List.zipWith (· ++ ·) texts literals).flatten) := by
      apply Placement.pieces_verbatim (htexts.trans hliterals.symm)
      intro i s hi
      rw [Nat.zero_add]
      exact hplain i s hi
    have hfaithful := (faithful_make hr).after calls
    rw [(hfaithful.renderForms _ decorate).1]
    exact Template.render_eq_ok_iff.mpr ⟨_, _, hsegments, hpieces, rfl⟩
  · refine ⟨_, hsegments, ?_, ?_⟩
    · rw [List.length_map, List.length_zipIdx, hliterals]
    · intro p hp
      obtain ⟨l, -, rfl⟩ := List.mem_map.mp hp
      exact Placement.absorbed_verbatim l.1 l.2

/-- A reference to a negative zero, with literals that look like specifiers. -/
theorem Renderer.renderForms_verbatim_colons :
    ∃ r, Renderer.make false true 1 = .ok r ∧
      (r.renderForms ⟨[":".toList, "::>9".toList, "#x;".toList],
        [.ref (.int 1), .decimal (.finite true 0 0)], rfl⟩ true).1 =
          .ok (.of ":-0:>9-0#x;".toList) := by
  obtain ⟨r, hr⟩ : ∃ r, Renderer.make false true 1 = .ok r := ⟨_, rfl⟩
  refine ⟨r, hr, ?_⟩
  have hplain : ∀ (i : Nat) (s : Text), ["-0".toList, "-0".toList][i]? = some s →
      ∃ v, Supply.resolveIn [.ref (.int 1), .decimal (.finite true 0 0)] i = .ok v ∧
        v.plain = .ok s := by
    intro i s hi
    match i with
    | 0 => cases hi; exact ⟨.decimal (.finite true 0 0), rfl, rfl⟩
    | 1 => cases hi; exact ⟨.decimal (.finite true 0 0), rfl, rfl⟩
  obtain ⟨⟨_, hrender⟩, -⟩ := Renderer.renderForms_verbatim hr [] ":".toList
    [":>9".toList, "#x;".toList] rfl rfl hplain true
  exact hrender

end SlotText
