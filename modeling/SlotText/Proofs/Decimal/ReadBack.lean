import SlotText.Proofs.Decimal.Placed
import SlotText.Proofs.Number.Signed

/-!
# Reading an expansion

An expansion in base ten, with a sign in front of it and possibly a power of ten behind it, is read
as the decimal that has its digits as the coefficient: the reader takes the digits up to the point,
the digits up to the power, and nothing is left. So the decimal stands for the expansion times the
power. The text of a float is read as the decimal that the float is taken for.
-/
namespace SlotText

variable {s t w : Text} {ds : List Nat} {negative : Bool} {x : Expansion} {k : Int} {c : Char}

namespace Numeral

theorem ofText_map_sign (h : ∀ d ∈ ds, d < 10) : ofText (ds.map sign) = value 10 ds := by
  have hmap : (ds.map sign).map (fun c => c.toNat - 48) = ds := by
    rw [List.map_map]
    conv => rhs; rw [← List.map_id ds]
    apply List.map_congr_left
    intro d hd
    have hsign := toNat_sign (h d hd)
    simp only [Function.comp_apply, hsign, id]
    omega
  rw [ofText, hmap]

theorem isDigit_of_mem_map_sign (h : ∀ d ∈ ds, d < 10) : ∀ c ∈ ds.map sign, isDigit c = true := by
  intro c hc
  obtain ⟨d, hd, rfl⟩ := List.mem_map.mp hc
  exact isDigit_sign (h d hd)

/-- The digits in front of something else are told from it. -/
theorem span_digits (hw : ∀ c ∈ w, isDigit c = true)
    (ht : ∀ c, t.head? = some c → isDigit c = false) :
    (w ++ t).takeWhile isDigit = w ∧ (w ++ t).dropWhile isDigit = t := by
  rw [List.takeWhile_append_of_pos hw, List.dropWhile_append_of_pos hw]
  cases t with
  | nil => exact ⟨List.append_nil w, rfl⟩
  | cons c t =>
      have hc : ¬isDigit c = true := by rw [ht c rfl]; decide
      rw [List.takeWhile_cons_of_neg hc, List.dropWhile_cons_of_neg hc, List.append_nil]
      exact ⟨rfl, rfl⟩

end Numeral

namespace Decimal
open Numeral (isDigit)

/-- What may stand behind an expansion: nothing, or the marker of a power of ten and the power with
its sign. -/
inductive Power : Int → Text → Prop
  | absent : Power 0 []
  | signed {marker : Char} {ds : List Nat} (negative : Bool) (hmarker : marker = 'e' ∨ marker = 'E')
      (hne : ds ≠ []) (hds : ∀ d ∈ ds, d < 10) :
      Power (if negative then -(Numeral.value 10 ds : Int) else Numeral.value 10 ds)
        (marker :: (if negative then '-' else '+') :: ds.map Numeral.sign)

theorem Power.head? (h : Power k t) (hc : t.head? = some c) : isDigit c = false ∧ c ≠ '.' := by
  cases h with
  | absent => cases hc
  | signed negative hmarker hne hds =>
      cases hc
      rcases hmarker with rfl | rfl
      · decide
      · decide

/-- A power of ten, with zeros in front of its digits or without them. -/
theorem Power.of_value {marker : Char} (hmarker : marker = 'e' ∨ marker = 'E') (hne : ds ≠ [])
    (hds : ∀ d ∈ ds, d < 10) (hvalue : Numeral.value 10 ds = k.natAbs) :
    Power k (marker :: (if k < 0 then '-' else '+') :: ds.map Numeral.sign) := by
  have hpower := Power.signed (k < 0) hmarker hne hds
  rw [hvalue] at hpower
  simpa only [decide_eq_true_eq, ite_neg_natAbs] using hpower

theorem power_exponentText {marker : Char} (hmarker : marker = 'e' ∨ marker = 'E') (k : Int) :
    Power k (marker :: exponentText k) :=
  .of_value hmarker (Numeral.digits_ne_nil 10 (by decide) _)
    (fun _ => Numeral.lt_of_mem_digits (by decide)) (Numeral.value_digits 10 (by decide) _)

/-- The digits behind a point, and what follows them. -/
def splitFraction (rest : Text) : Text × Text :=
  match rest with
  | '.' :: r => (r.takeWhile isDigit, r.dropWhile isDigit)
  | r => ([], r)

/-- The sign of a power, and what follows it. -/
def splitSign (power : Text) : Bool × Text :=
  match power with
  | '-' :: r => (true, r)
  | '+' :: r => (false, r)
  | r => (false, r)

/-- A coefficient with digits behind its point, and with the power of ten that follows them. -/
def withPower? (c : Nat) (places : Int) (rest : Text) : Option (Nat × Int) :=
  match rest with
  | [] => some (c, -places)
  | marker :: power =>
    if marker ≠ 'e' ∧ marker ≠ 'E' then none
    else if (splitSign power).2.isEmpty ∨ (splitSign power).2.any (!isDigit ·) then none
    else some (c, (if (splitSign power).1 then -(Numeral.ofText (splitSign power).2 : Int)
      else Numeral.ofText (splitSign power).2) - places)

theorem magnitudeOfText?_eq (s : Text) :
    magnitudeOfText? s =
      if (s.takeWhile isDigit).isEmpty ∧ (splitFraction (s.dropWhile isDigit)).1.isEmpty then none
      else withPower?
        (Numeral.ofText (s.takeWhile isDigit ++ (splitFraction (s.dropWhile isDigit)).1))
        (splitFraction (s.dropWhile isDigit)).1.length (splitFraction (s.dropWhile isDigit)).2 :=
  rfl

theorem splitFraction_text (h : ∀ d ∈ ds, d < 10) (hp : Power k t) :
    splitFraction ((if ds = [] then [] else '.' :: ds.map Numeral.sign) ++ t) =
      (ds.map Numeral.sign, t) := by
  cases ds with
  | nil =>
      cases t with
      | nil => rfl
      | cons c t =>
          rw [if_pos rfl, List.nil_append, splitFraction]
          · rfl
          · intro r hr
            exact (hp.head? rfl).2 (List.cons.inj hr).1
  | cons d ds =>
      obtain ⟨hdigits, hrest⟩ := Numeral.span_digits (Numeral.isDigit_of_mem_map_sign h)
        fun c hc => (hp.head? hc).1
      rw [if_neg (List.cons_ne_nil d ds), List.cons_append, splitFraction, hdigits, hrest]

theorem withPower?_of_power (hp : Power k t) (c : Nat) (places : Int) :
    withPower? c places t = some (c, k - places) := by
  cases hp with
  | absent => rw [withPower?, zero_sub]
  | @signed marker ds negative hmarker hne hds =>
      have hsplit : splitSign ((if negative then '-' else '+') :: ds.map Numeral.sign) =
          (negative, ds.map Numeral.sign) := by
        cases negative <;> rfl
      have hany : (ds.map Numeral.sign).any (!isDigit ·) = false := by
        rw [List.any_eq_false]
        intro c hc
        rw [Numeral.isDigit_of_mem_map_sign hds c hc]
        decide
      have hempty : (ds.map Numeral.sign).isEmpty = false := by simpa using hne
      have hnot : ¬(marker ≠ 'e' ∧ marker ≠ 'E') := by
        rintro ⟨he, hE⟩
        exact hmarker.elim he hE
      rw [withPower?, if_neg hnot, hsplit, hany, hempty, Numeral.ofText_map_sign hds,
        if_neg (by decide)]

theorem magnitudeOfText?_text (h : x.Valid 10) (hp : Power k t) :
    magnitudeOfText? (x.text false ++ t) =
      some (Numeral.value 10 (x.whole ++ x.fraction), k - x.fraction.length) := by
  have hrest : ∀ c, ((if x.fraction = [] then [] else '.' :: x.fraction.map Numeral.sign) ++
      t).head? = some c → isDigit c = false := by
    intro c hc
    by_cases hnil : x.fraction = []
    · rw [if_pos hnil, List.nil_append] at hc
      exact (hp.head? hc).1
    · rw [if_neg hnil] at hc
      cases hc
      decide
  obtain ⟨hdigits, hdrop⟩ :=
    Numeral.span_digits (Numeral.isDigit_of_mem_map_sign h.whole_lt) hrest
  have hempty : (x.whole.map Numeral.sign).isEmpty = false := by simpa using h.whole_ne_nil
  have hvalue : Numeral.ofText (x.whole.map Numeral.sign ++ x.fraction.map Numeral.sign) =
      Numeral.value 10 (x.whole ++ x.fraction) := by
    rw [← List.map_append, Numeral.ofText_map_sign]
    exact fun d hd => (List.mem_append.mp hd).elim (h.whole_lt d) (h.fraction_lt d)
  rw [magnitudeOfText?_eq, Expansion.text, Numeral.signIn_false, List.append_assoc, hdigits, hdrop,
    splitFraction_text h.fraction_lt hp, hempty, if_neg fun hnone => Bool.false_ne_true hnone.1,
    hvalue, withPower?_of_power hp, List.length_map]

/-- No word is taken for a text that begins with a digit. -/
theorem ofText?_of_digit {d : Nat} (hd : d < 10) (negative : Bool) (s : Text) :
    ofText? (signText negative ++ Numeral.sign d :: s) =
      (magnitudeOfText? (Numeral.sign d :: s)).map fun (c, e) => finite negative c e := by
  have hall : ∀ d < 10, (Numeral.sign d ≠ '-' ∧ Numeral.sign d ≠ '+') ∧
      'i' ≠ (Numeral.sign d).toLower ∧ 'n' ≠ (Numeral.sign d).toLower ∧
      's' ≠ (Numeral.sign d).toLower := by decide
  obtain ⟨⟨hminus, hplus⟩, hi, hn, hs⟩ := hall d hd
  have hsign : dropSign (signText negative ++ Numeral.sign d :: s) =
      (negative, Numeral.sign d :: s) := by
    cases negative with
    | true => rfl
    | false =>
        rw [signText, if_neg Bool.false_ne_true, List.nil_append, dropSign]
        · exact fun r hr => hminus (List.cons.inj hr).1
        · exact fun r hr => hplus (List.cons.inj hr).1
  have hinf : ¬((Numeral.sign d :: s).map Char.toLower = "inf".toList ∨
      (Numeral.sign d :: s).map Char.toLower = "infinity".toList) := by
    rintro (h | h)
    · exact hi (List.cons.inj h).1.symm
    · exact hi (List.cons.inj h).1.symm
  have hquiet : "nan".toList.isPrefixOf ((Numeral.sign d :: s).map Char.toLower) = false := by
    rw [List.map_cons]
    exact Bool.and_eq_false_imp.mpr fun h => absurd (beq_iff_eq.mp h) hn
  have hsignaling : "snan".toList.isPrefixOf ((Numeral.sign d :: s).map Char.toLower) = false := by
    rw [List.map_cons]
    exact Bool.and_eq_false_imp.mpr fun h => absurd (beq_iff_eq.mp h) hs
  unfold ofText?
  rw [hsign]
  dsimp only
  rw [if_neg hinf, hquiet, hsignaling, if_neg fun h => Bool.false_ne_true h.1,
    if_neg fun h => Bool.false_ne_true h.1]

/-- An expansion with a power of ten is read as the decimal that it is. -/
theorem ofText?_text (h : x.Valid 10) (hp : Power k t) (negative : Bool) :
    ofText? (signText negative ++ (x.text false ++ t)) =
      some (finite negative (Numeral.value 10 (x.whole ++ x.fraction))
        (k - x.fraction.length)) := by
  obtain ⟨d, ds, hwhole, hd⟩ := h.exists_cons
  have hcons : x.text false ++ t = Numeral.sign d :: (ds.map Numeral.sign ++
      (if x.fraction = [] then [] else '.' :: x.fraction.map Numeral.sign) ++ t) := by
    rw [Expansion.text, hwhole, Numeral.signIn_false]
    rfl
  rw [hcons, ofText?_of_digit hd, ← hcons, magnitudeOfText?_text h hp]
  rfl

theorem ofText?_placed (hne : ds ≠ []) (hds : ∀ d ∈ ds, d < 10) {place : Int}
    (hle : place ≤ ds.length) (hp : Power k t) (negative : Bool) :
    ofText? (signText negative ++ ((Expansion.placed ds place).text false ++ t)) =
      some (finite negative (Numeral.value 10 ds) (k + place - ds.length)) := by
  have hvalid := Expansion.valid_placed (by decide) hne hds place
  obtain ⟨hvalue, hlength⟩ := @Expansion.placed_of_le 10 ds place hle
  have hexponent : k - ((ds.length : Int) - place) = k + place - ds.length := by omega
  rw [ofText?_text hvalid hp, hvalue, hlength, hexponent]

theorem toRat_ofText (x : Expansion) (k : Int) (negative : Bool) :
    (finite negative (Numeral.value 10 (x.whole ++ x.fraction)) (k - x.fraction.length)).toRat =
      withSign negative (x.value 10 * 10 ^ k) := by
  rw [toRat, Expansion.value, zpow_sub₀ (by norm_num), zpow_natCast]
  congr 1
  push_cast
  ring

end Decimal

namespace Binary64

theorem power_exponentText (k : Int) : Decimal.Power k ('e' :: exponentText k) := by
  have hpad : exponentText k = (if k < 0 then '-' else '+') ::
      (List.replicate (2 - (Numeral.digits 10 k.natAbs).length) 0 ++
        Numeral.digits 10 k.natAbs).map Numeral.sign := by
    rw [exponentText, List.leftpad, Numeral.ofNat, List.length_map, List.map_append,
      List.map_replicate]
    rfl
  rw [hpad]
  apply Decimal.Power.of_value (.inl rfl)
  · intro hnil
    exact Numeral.digits_ne_nil 10 (by decide) _ (List.append_eq_nil_iff.mp hnil).2
  · intro d hd
    rcases List.mem_append.mp hd with hd | hd
    · exact Numeral.lt_of_mem_zeros (by decide) hd
    · exact Numeral.lt_of_mem_digits (by decide) hd
  · rw [Numeral.value_zeros_append, Numeral.value_digits 10 (by decide)]

/-- Digits in front of a point, the zeros up to it and the one behind it. -/
theorem ofText?_marked (c : Nat) {e : Int} (he : 0 ≤ e) (negative : Bool) :
    Decimal.ofText? (Decimal.signText negative ++
      ((Expansion.placed (Numeral.digits 10 c) (e + (Numeral.digits 10 c).length)).text false ++
        ".0".toList)) =
      some (.finite negative (c * Nat.pow 10 (e.toNat + 1)) (-1)) := by
  have hne := Numeral.digits_ne_nil 10 (by decide) c
  let x : Expansion := ⟨Numeral.digits 10 c ++ List.replicate e.toNat 0, [0]⟩
  have hx : x.Valid 10 := by
    refine ⟨fun hnil => hne (List.append_eq_nil_iff.mp hnil).1, fun d hd => ?_, by simp [x]⟩
    rcases List.mem_append.mp hd with hd | hd
    · exact Numeral.lt_of_mem_digits (by decide) hd
    · exact Numeral.lt_of_mem_zeros (by decide) hd
  have htext : (Expansion.placed (Numeral.digits 10 c)
      (e + (Numeral.digits 10 c).length)).text false ++ ".0".toList = x.text false ++ [] := by
    rw [Expansion.placed_of_ge hne (by omega), Expansion.text_of_fraction_eq_nil,
      Int.add_sub_cancel, List.append_nil]
    rfl
  have hvalue : Numeral.value 10 (x.whole ++ x.fraction) = c * 10 ^ (e.toNat + 1) := by
    have hfraction : x.whole ++ x.fraction =
        Numeral.digits 10 c ++ List.replicate (e.toNat + 1) 0 := by
      rw [List.replicate_succ', ← List.append_assoc]
    rw [hfraction, Numeral.value_append_zeros, Numeral.value_digits 10 (by decide)]
  rw [htext, Decimal.ofText?_text hx .absent, hvalue]
  rfl

/-- The text of a finite float is a numeral of the decimal that the float is taken for. -/
theorem ofText?_text {x : Binary64} (hx : x.isFinite = true) :
    Decimal.ofText? x.text = some x.toDecimal := by
  have hnan := isNaN_of_isFinite hx
  unfold text written toDecimal
  simp only [hnan, hx, Bool.not_true, Bool.false_eq_true, if_false]
  generalize x.shortest.1 = c
  generalize x.shortest.2 = e
  have hne := Numeral.digits_ne_nil 10 (by decide) c
  have hds : ∀ d ∈ Numeral.digits 10 c, d < 10 := fun d => Numeral.lt_of_mem_digits (by decide)
  have hvalue := Numeral.value_digits 10 (by decide) c
  simp only [Numeral.ofNat, List.length_map, Decimal.placePoint_map_sign hne, Bool.true_and,
    decide_eq_true_eq]
  by_cases hpositional : isPositional c e = true
  · by_cases he : 0 ≤ e
    · simp only [hpositional, he, if_true, and_self]
      exact ofText?_marked c he x.isNegative
    · have hle : e + (Numeral.digits 10 c).length ≤ (Numeral.digits 10 c).length := by omega
      have hread := Decimal.ofText?_placed hne hds hle .absent x.isNegative
      simp only [hpositional, he, if_true, if_false, and_false]
      rw [hread, hvalue, zero_add, Int.add_sub_cancel]
  · have hle : (1 : Int) ≤ (Numeral.digits 10 c).length := by
      have := List.length_pos_of_ne_nil hne
      omega
    have hread := Decimal.ofText?_placed hne hds hle
      (power_exponentText (e + (Numeral.digits 10 c).length - 1)) x.isNegative
    simp only [hpositional, if_false, Bool.false_eq_true, false_and]
    rw [hread, hvalue, Int.sub_add_cancel, Int.add_sub_cancel]

end Binary64

end SlotText
