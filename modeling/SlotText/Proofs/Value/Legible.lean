import SlotText.Proofs.Text.Inline
import SlotText.Proofs.Value.Unformatted

/-!
# Values that are shown on one line

Showing a value quotes every text in it, so whatever its texts and bytes hold, the value is shown on
one line. Two things are taken over as they are: the names of records and of their fields, and the
failures of formatted texts. A value is legible if the names, which identifiers are, stand on one
line and the formatted texts can be rendered. Showing it then yields a text on one line unless a
number in it has too many digits.
-/
namespace SlotText

open Failure (NoFault)
open Outcome (FailsOnly Yields failsOnly_ok yields_ok)
open Text (Inline inline_cons)

theorem Numeral.yields_write (n : Int) : Yields Inline NoFault (write n) := by
  refine ⟨?_, failsOnly_write n⟩
  intro s hs
  rw [write_eq_ok (lt_of_write hs)] at hs
  cases hs
  exact inline_ofInt n

theorem Index.yields_write (i : Index) : Yields Inline NoFault i.write := by
  cases i with
  | position i => exact yields_ok (Numeral.inline_ofInt i)
  | number i => exact Numeral.yields_write i

namespace Value

mutual

/-- However deep, all names stand on one line and all formatted texts have a plain form. -/
def Legible : Value → Prop
  | list xs => LegibleAll xs
  | tuple xs => LegibleAll xs
  | dict es => LegibleEntries es
  | set xs => LegibleAll xs
  | frozenSet xs => LegibleAll xs
  | record name fields => name.Inline ∧ LegibleFields fields
  | ref target => Legible target
  | formatted plain _ => ∃ s, plain = .ok s
  | none => True
  | bool _ => True
  | int _ => True
  | float _ => True
  | decimal _ => True
  | fraction _ _ => True
  | complex _ _ => True
  | bytes _ => True
  | text _ => True

def LegibleAll : List Value → Prop
  | [] => True
  | v :: vs => Legible v ∧ LegibleAll vs

def LegibleEntries : List (Value × Value) → Prop
  | [] => True
  | (k, v) :: es => Legible k ∧ Legible v ∧ LegibleEntries es

def LegibleFields : List (Text × Value) → Prop
  | [] => True
  | (name, v) :: fs => name.Inline ∧ Legible v ∧ LegibleFields fs

end

variable {ss : List Text}

theorem inline_items (h : ∀ s ∈ ss, s.Inline) : Inline (List.intercalate comma ss) :=
  Text.inline_intercalate (by decide) h

theorem inline_tupleText (h : ∀ s ∈ ss, s.Inline) : Inline (tupleText ss) := by
  unfold tupleText
  split
  · simp +decide [h]
  · simp +decide [inline_items h]

theorem inline_setText (h : ∀ s ∈ ss, s.Inline) : Inline (setText ss) := by
  unfold setText
  split
  · decide +kernel
  · simp +decide [inline_items h]

theorem inline_frozenSetText (h : ∀ s ∈ ss, s.Inline) : Inline (frozenSetText ss) := by
  unfold frozenSetText
  split
  · decide +kernel
  · simp +decide [inline_items h]

theorem inline_complexText (re im : Binary64) : Inline (complexText re im) := by
  have hpart : Inline (signedPart im) := by
    have hwritten := im.inline_written false
    unfold signedPart
    split
    · next h => rwa [h] at hwritten
    · exact inline_cons.mpr ⟨rfl, hwritten⟩
  unfold complexText
  split
  · simp +decide
  · simp +decide [hpart]

theorem yields_fractionText (n : Int) (d : Nat) :
    Yields Inline NoFault (fractionText n d) := by
  refine (Numeral.yields_write n).bind fun top htop => ?_
  refine (Numeral.yields_write d).bind fun bottom hbottom => ?_
  exact yields_ok (by simp +decide [htop, hbottom, comma])

mutual

theorem yields_shown : (v : Value) → v.Legible → Yields Inline NoFault v.shown
  | none, _ => yields_ok (by decide +kernel)
  | bool b, _ => yields_ok (by cases b <;> decide +kernel)
  | int n, _ => Numeral.yields_write n
  | float x, _ => yields_ok (x.inline_written true)
  | decimal d, _ => yields_ok (by simp +decide)
  | fraction n d, _ => yields_fractionText n d
  | complex re im, _ => yields_ok (inline_complexText re im)
  | bytes bs, _ => yields_ok (Text.inline_quotedBytes bs)
  | text s, _ => yields_ok (Text.inline_quoted s)
  | list xs, h => by
      rw [shown]
      refine (yields_shownAll xs h).bind fun ss hss => yields_ok ?_
      simp +decide [inline_items hss]
  | tuple xs, h => by
      rw [shown]
      exact (yields_shownAll xs h).bind fun ss hss => yields_ok (inline_tupleText hss)
  | dict es, h => by
      rw [shown]
      refine (yields_shownEntries es h).bind fun ss hss => yields_ok ?_
      simp +decide [inline_items hss]
  | set xs, h => by
      rw [shown]
      exact (yields_shownAll xs h).bind fun ss hss => yields_ok (inline_setText hss)
  | frozenSet xs, h => by
      rw [shown]
      exact (yields_shownAll xs h).bind fun ss hss => yields_ok (inline_frozenSetText hss)
  | record name fields, h => by
      rw [shown]
      refine (yields_shownFields fields h.2).bind fun ss hss => yields_ok ?_
      simp +decide [h.1, inline_items hss]
  | ref target, h => by
      rw [shown]
      refine (yields_shown target h).bind fun s hs => yields_ok ?_
      simp +decide [hs]
  | formatted plain _, h => by
      obtain ⟨s, rfl⟩ := h
      rw [shown]
      exact yields_ok (by simp +decide)

theorem yields_shownAll : (vs : List Value) → LegibleAll vs →
    Yields (∀ s ∈ ·, s.Inline) NoFault (shownAll vs)
  | [], _ => yields_ok (by simp)
  | v :: vs, h => by
      rw [shownAll]
      refine (yields_shown v h.1).bind fun s hs => ?_
      refine (yields_shownAll vs h.2).bind fun ss hss => ?_
      exact yields_ok (List.forall_mem_cons.mpr ⟨hs, hss⟩)

theorem yields_shownEntries : (es : List (Value × Value)) → LegibleEntries es →
    Yields (∀ s ∈ ·, s.Inline) NoFault (shownEntries es)
  | [], _ => yields_ok (by simp)
  | (k, v) :: es, h => by
      rw [shownEntries]
      refine (yields_shown k h.1).bind fun key hkey => ?_
      refine (yields_shown v h.2.1).bind fun s hs => ?_
      refine (yields_shownEntries es h.2.2).bind fun ss hss => ?_
      refine yields_ok (List.forall_mem_cons.mpr ⟨?_, hss⟩)
      simp +decide [hkey, hs]

theorem yields_shownFields : (fs : List (Text × Value)) → LegibleFields fs →
    Yields (∀ s ∈ ·, s.Inline) NoFault (shownFields fs)
  | [], _ => yields_ok (by simp)
  | (name, v) :: fs, h => by
      rw [shownFields]
      refine (yields_shown v h.2.1).bind fun s hs => ?_
      refine (yields_shownFields fs h.2.2).bind fun ss hss => ?_
      refine yields_ok (List.forall_mem_cons.mpr ⟨?_, hss⟩)
      simp +decide [h.1, hs]

end

theorem Legible.failsOnly_plain {v : Value} (h : v.Legible) : FailsOnly NoFault v.plain := by
  cases v with
  | text s => exact failsOnly_ok _
  | decimal d => exact failsOnly_ok _
  | fraction n d => exact Value.failsOnly_plain (v := fraction n d) trivial
  | formatted p _ =>
      obtain ⟨s, rfl⟩ := h
      exact failsOnly_ok s
  | _ => exact (yields_shown _ h).failsOnly

end Value

end SlotText
