import SlotText.Proofs.Value.Layout

/-!
# Values without formatted texts

A formatted text is a template of its own, and where it is shown its faults come out of the value
that holds it. A value without formatted texts has no faults. It may still be impossible to show or
to lay out, for instance if one of its whole numbers has too many digits, but no template is to
blame then.
-/
namespace SlotText

open Failure (NoFault)
open Outcome (FailsOnly failsOnly_ok failsOnly_error)

namespace Value

mutual

/-- There is no formatted text in the value, however deep. -/
def Unformatted : Value → Prop
  | list xs => UnformattedAll xs
  | tuple xs => UnformattedAll xs
  | dict es => UnformattedEntries es
  | set xs => UnformattedAll xs
  | frozenSet xs => UnformattedAll xs
  | record _ fields => UnformattedFields fields
  | ref target => Unformatted target
  | formatted _ _ => False
  | none => True
  | bool _ => True
  | int _ => True
  | float _ => True
  | decimal _ => True
  | fraction _ _ => True
  | complex _ _ => True
  | bytes _ => True
  | text _ => True

def UnformattedAll : List Value → Prop
  | [] => True
  | v :: vs => Unformatted v ∧ UnformattedAll vs

def UnformattedEntries : List (Value × Value) → Prop
  | [] => True
  | (k, v) :: es => Unformatted k ∧ Unformatted v ∧ UnformattedEntries es

def UnformattedFields : List (Text × Value) → Prop
  | [] => True
  | (_, v) :: fs => Unformatted v ∧ UnformattedFields fs

end

theorem failsOnly_fractionText (n : Int) (d : Nat) : FailsOnly NoFault (fractionText n d) := by
  refine (Numeral.failsOnly_write n).bind fun _ _ => ?_
  exact (Numeral.failsOnly_write d).bind fun _ _ => failsOnly_ok _

mutual

theorem failsOnly_shown : (v : Value) → v.Unformatted → FailsOnly NoFault v.shown
  | int n, _ => Numeral.failsOnly_write n
  | fraction n d, _ => failsOnly_fractionText n d
  | list xs, h => by
      rw [shown]
      exact (failsOnly_shownAll xs h).bind fun _ _ => failsOnly_ok _
  | tuple xs, h => by
      rw [shown]
      exact (failsOnly_shownAll xs h).bind fun _ _ => failsOnly_ok _
  | dict es, h => by
      rw [shown]
      exact (failsOnly_shownEntries es h).bind fun _ _ => failsOnly_ok _
  | set xs, h => by
      rw [shown]
      exact (failsOnly_shownAll xs h).bind fun _ _ => failsOnly_ok _
  | frozenSet xs, h => by
      rw [shown]
      exact (failsOnly_shownAll xs h).bind fun _ _ => failsOnly_ok _
  | record name fields, h => by
      rw [shown]
      exact (failsOnly_shownFields fields h).bind fun _ _ => failsOnly_ok _
  | ref target, h => by
      rw [shown]
      exact (failsOnly_shown target h).bind fun _ _ => failsOnly_ok _
  | formatted _ _, h => h.elim
  | none, _ => failsOnly_ok _
  | bool _, _ => failsOnly_ok _
  | float _, _ => failsOnly_ok _
  | decimal _, _ => failsOnly_ok _
  | complex _ _, _ => failsOnly_ok _
  | bytes _, _ => failsOnly_ok _
  | text _, _ => failsOnly_ok _

theorem failsOnly_shownAll : (vs : List Value) → UnformattedAll vs →
    FailsOnly NoFault (shownAll vs)
  | [], _ => failsOnly_ok _
  | v :: vs, h => by
      rw [shownAll]
      refine (failsOnly_shown v h.1).bind fun _ _ => ?_
      exact (failsOnly_shownAll vs h.2).bind fun _ _ => failsOnly_ok _

theorem failsOnly_shownEntries : (es : List (Value × Value)) → UnformattedEntries es →
    FailsOnly NoFault (shownEntries es)
  | [], _ => failsOnly_ok _
  | (k, v) :: es, h => by
      rw [shownEntries]
      refine (failsOnly_shown k h.1).bind fun _ _ => ?_
      refine (failsOnly_shown v h.2.1).bind fun _ _ => ?_
      exact (failsOnly_shownEntries es h.2.2).bind fun _ _ => failsOnly_ok _

theorem failsOnly_shownFields : (fs : List (Text × Value)) → UnformattedFields fs →
    FailsOnly NoFault (shownFields fs)
  | [], _ => failsOnly_ok _
  | (_, v) :: fs, h => by
      rw [shownFields]
      refine (failsOnly_shown v h.1).bind fun _ _ => ?_
      exact (failsOnly_shownFields fs h.2).bind fun _ _ => failsOnly_ok _

end

theorem failsOnly_plain {v : Value} (h : v.Unformatted) : FailsOnly NoFault v.plain := by
  cases v with
  | text s => exact failsOnly_ok _
  | decimal d => exact failsOnly_ok _
  | fraction n d =>
      refine (Numeral.failsOnly_write n).bind fun _ _ => ?_
      split
      · exact failsOnly_ok _
      · exact (Numeral.failsOnly_write d).bind fun _ _ => failsOnly_ok _
  | formatted p _ => exact h.elim
  | _ => exact failsOnly_shown _ h

end Value

theorem Number.failsOnly_convert {n : Number} (hn : n.isFinite = true) (k : Conversion)
    (fixed : Bool) : FailsOnly NoFault (n.convert k fixed) := by
  unfold convert
  split
  · next base hbase =>
      obtain ⟨hb, hs, -⟩ := Conversion.base_bounds hbase
      refine FailsOnly.bind ?_ fun _ _ => failsOnly_ok _
      intro e he
      obtain ⟨_, _, _, -, -, -, rfl⟩ := (inBase_eq_error_iff hn hb hs).mp he
      exact fun _ => nofun
  · split
    · exact failsOnly_ok _
    · split
      · exact (Numeral.failsOnly_write _).bind fun _ _ => failsOnly_ok _
      · cases n with
        | int n => exact Numeral.failsOnly_write n
        | float x => exact failsOnly_ok _
        | decimal d => exact failsOnly_ok _

theorem Text.failsOnly_count (n : Int) : FailsOnly NoFault (count n) := by
  unfold count
  split
  · exact failsOnly_ok _
  · exact failsOnly_error fun _ => nofun

namespace Shaped

theorem failsOnly_withDigits (spec : Specifier) (finite : Bool) (s : Text) :
    FailsOnly NoFault (withDigits spec finite s) := by
  unfold withDigits
  split
  · split
    · unfold Text.withPrecision
      dsimp only
      split
      · exact failsOnly_ok _
      · exact (Text.failsOnly_count _).bind fun _ _ => failsOnly_ok _
    · exact failsOnly_ok _
  · exact failsOnly_ok _

theorem failsOnly_withFront (spec : Specifier) (finite : Bool) (s : Text) :
    FailsOnly NoFault (withFront spec finite s) := by
  unfold withFront
  split
  · split
    · exact (Text.failsOnly_count _).bind fun _ _ => failsOnly_ok _
    · exact failsOnly_ok _
  · exact failsOnly_ok _

end Shaped

namespace Rendered

theorem failsOnly_fillOf (fill : Text) (n : Int) : FailsOnly NoFault (fillOf fill n) := by
  unfold fillOf
  split
  · exact failsOnly_error fun _ => nofun
  · split
    · exact failsOnly_error fun _ => nofun
    · exact failsOnly_ok _

theorem failsOnly_align (r : Rendered) (width : Int) (a : Alignment) (fill : Text) :
    FailsOnly NoFault (r.align width a fill) := by
  unfold align
  dsimp only
  split
  · exact failsOnly_ok _
  · cases a with
    | left => exact (failsOnly_fillOf fill _).bind fun _ _ => failsOnly_ok _
    | center =>
        refine (failsOnly_fillOf fill _).bind fun _ _ => ?_
        exact (failsOnly_fillOf fill _).bind fun _ _ => failsOnly_ok _
    | right => exact (failsOnly_fillOf fill _).bind fun _ _ => failsOnly_ok _

end Rendered

namespace Value

variable {v : Value}

theorem failsOnly_convert (h : FailsOnly NoFault v.plain) (spec : Specifier) (decorate : Bool) :
    FailsOnly NoFault (v.convert spec decorate) := by
  unfold convert
  split
  · exact failsOnly_ok _
  · split
    · split
      · next hn => exact (Number.failsOnly_convert hn _ _).map _
      · exact h.map _
    · exact h.map _

/-- Laying out ends with a fault only if the natural text does. -/
theorem failsOnly_layOut_of_plain (h : FailsOnly NoFault v.plain) (spec : Specifier)
    (decorate : Bool) : FailsOnly NoFault (v.layOut spec decorate) := by
  unfold layOut
  refine (failsOnly_convert h _ decorate).bind fun r _ => ?_
  split
  · refine FailsOnly.bind ?_ fun shaped _ => ?_
    · rw [Shaped.of_eq]
      exact (Shaped.failsOnly_withDigits _ _ _).bind fun s _ => Shaped.failsOnly_withFront _ _ s
    · split
      · exact failsOnly_ok _
      · exact Rendered.failsOnly_align _ _ _ _
  · exact Rendered.failsOnly_align _ _ _ _

/-- Laying out a value without formatted texts never ends with a fault. -/
theorem failsOnly_layOut (h : v.Unformatted) (spec : Specifier) (decorate : Bool) :
    FailsOnly NoFault (v.layOut spec decorate) :=
  failsOnly_layOut_of_plain (failsOnly_plain h) spec decorate

end Value

end SlotText
