import SlotText.Proofs.Decimal.Nearest
import SlotText.Proofs.Decimal.Scientific
import SlotText.Proofs.Value.Inert
import SlotText.Proofs.Value.Truncated

/-!
# Ordinals

An ordinal is the numeral of the nearest whole number with a suffix. The suffix is chosen by the
remainders of the number, and these are the digits that stand at the end of its numeral, so the
suffix belongs to the digits that are read in front of it. A number that is rounded to zero has no
minus any more.
-/
namespace SlotText

namespace Numeral

/-- The English suffix that belongs to a numeral as it is written. -/
def suffixOf (s : Text) : Text :=
  if ['1', '1'] <:+ s ∨ ['1', '2'] <:+ s ∨ ['1', '3'] <:+ s then ['t', 'h']
  else if ['1'] <:+ s then ['s', 't']
  else if ['2'] <:+ s then ['n', 'd']
  else if ['3'] <:+ s then ['r', 'd']
  else ['t', 'h']

variable {base n d : Nat} {ds : List Nat}

/-- The last digits of a numeral are those of the remainder. -/
theorem value_drop_digits (hb : 2 ≤ base) {k : Nat} (hk : k ≤ (digits base n).length) :
    value base ((digits base n).drop ((digits base n).length - k)) = n % base ^ k := by
  have hlength : ((digits base n).drop ((digits base n).length - k)).length = k := by
    rw [List.length_drop]
    omega
  have hlt := value_lt hb fun d hd => lt_of_mem_digits hb (n := n)
    (List.mem_of_mem_drop (i := (digits base n).length - k) hd)
  rw [hlength] at hlt
  conv => rhs; rw [← value_digits base hb n]
  conv => rhs; rw [← List.take_append_drop ((digits base n).length - k) (digits base n)]
  rw [value_append, hlength, Nat.mul_add_mod_self_right, Nat.mod_eq_of_lt hlt]

/-- Digits that do not begin with a zero stand at the end of a numeral if they are the remainder. -/
theorem isSuffix_digits_iff (hb : 2 ≤ base) (hd : d ≠ 0) (hds : ∀ d' ∈ d :: ds, d' < base) :
    d :: ds <:+ digits base n ↔ n % base ^ (d :: ds).length = value base (d :: ds) := by
  constructor
  · intro hsuffix
    rw [← value_drop_digits hb hsuffix.length_le, ← List.suffix_iff_eq_drop.mp hsuffix]
  · intro hmod
    -- The number is not below the first of the digits, so its numeral has no fewer of them.
    have hlow : base ^ ds.length ≤ n := by
      calc base ^ ds.length
        _ ≤ d * base ^ ds.length := Nat.le_mul_of_pos_left _ (Nat.pos_of_ne_zero hd)
        _ ≤ value base (d :: ds) := by
          rw [value_cons]
          exact Nat.le_add_right _ _
        _ ≤ n := hmod ▸ Nat.mod_le _ _
    have hlength : (d :: ds).length ≤ (digits base n).length :=
      (Nat.pow_lt_pow_iff_right (by omega)).mp
        (Nat.lt_of_le_of_lt hlow (lt_pow_length_digits base hb n))
    rw [← value_drop_digits hb hlength] at hmod
    refine List.suffix_iff_eq_drop.mpr (eq_of_value_eq hb hds ?_ ?_ hmod.symm)
    · exact fun d' hd' => lt_of_mem_digits hb (List.mem_of_mem_drop hd')
    · rw [List.length_drop]
      omega

/-- What is written at the end of a numeral is read off the digits. -/
theorem isSuffix_map_sign_iff (hds : ∀ d ∈ ds, d < 10) :
    ds.map sign <:+ ofNat n ↔ ds <:+ digits 10 n := by
  constructor
  · rintro ⟨front, happend⟩
    obtain ⟨es, es', hdigits, -, hmap⟩ := List.map_eq_append_iff.mp happend.symm
    have hes' : ∀ d ∈ es', d < 10 := fun d hd =>
      lt_of_mem_digits (by decide) (hdigits ▸ List.mem_append_right es hd)
    have hvalue : value 10 es' = value 10 ds := by
      rw [← ofText_map_sign hes', hmap, ofText_map_sign hds]
    have hlength : es'.length = ds.length := by
      rw [← List.length_map, hmap, List.length_map]
    rw [hdigits, ← eq_of_value_eq (by decide) hes' hds hlength hvalue]
    exact List.suffix_append _ _
  · exact fun h => h.map sign

theorem isSuffix_ofNat_iff (n : Nat) (hd : d ≠ 0) (ds : List Nat) (hds : ∀ d' ∈ d :: ds, d' < 10) :
    (d :: ds).map sign <:+ ofNat n ↔ n % 10 ^ (d :: ds).length = value 10 (d :: ds) :=
  (isSuffix_map_sign_iff hds).trans (isSuffix_digits_iff (by decide) hd hds)

/-- The suffix that is chosen by the number is the one of its numeral. -/
theorem suffixOf_ofNat (m : Int) : suffixOf (ofNat m.natAbs) = ordinalSuffix m := by
  have h11 : ['1', '1'] <:+ ofNat m.natAbs ↔ m.natAbs % 100 = 11 :=
    isSuffix_ofNat_iff _ (by decide : 1 ≠ 0) [1] (by decide)
  have h12 : ['1', '2'] <:+ ofNat m.natAbs ↔ m.natAbs % 100 = 12 :=
    isSuffix_ofNat_iff _ (by decide : 1 ≠ 0) [2] (by decide)
  have h13 : ['1', '3'] <:+ ofNat m.natAbs ↔ m.natAbs % 100 = 13 :=
    isSuffix_ofNat_iff _ (by decide : 1 ≠ 0) [3] (by decide)
  have h1 : ['1'] <:+ ofNat m.natAbs ↔ m.natAbs % 10 = 1 :=
    isSuffix_ofNat_iff _ (by decide : 1 ≠ 0) [] (by decide)
  have h2 : ['2'] <:+ ofNat m.natAbs ↔ m.natAbs % 10 = 2 :=
    isSuffix_ofNat_iff _ (by decide : 2 ≠ 0) [] (by decide)
  have h3 : ['3'] <:+ ofNat m.natAbs ↔ m.natAbs % 10 = 3 :=
    isSuffix_ofNat_iff _ (by decide : 3 ≠ 0) [] (by decide)
  unfold suffixOf ordinalSuffix
  simp only [h11, h12, h13, h1, h2, h3]
  congr 1
  generalize m.natAbs % 10 = last
  match last with
  | 0 | 1 | 2 | 3 => rfl
  | _ + 4 => simp

theorem ordinal_eq_ok {m : Int} (h : (ofNat m.natAbs).length ≤ longest) (upper : Bool) :
    ordinal m upper = .ok (Decimal.signText (m < 0) ++ (ofNat m.natAbs ++
      if upper then (ordinalSuffix m).map Char.toUpper else ordinalSuffix m)) := by
  rw [ordinal, write, if_neg (by omega), Outcome.ok_bind, ofInt_eq, ← List.append_assoc]
  rfl

end Numeral

namespace Number

variable {n : Number}

/-- What the nearest whole number is nearest to: the number itself, or the decimal that a float is
taken for. -/
theorem nearestAway_nearestInt (hn : n.isFinite = true) :
    NearestAway n.toDecimal.toRat n.nearestInt := by
  cases n with
  | int m =>
      rw [toDecimal, Decimal.toRat_ofInt]
      exact .of_intCast m
  | float x =>
      obtain ⟨negative, c, e, hx⟩ := Decimal.exists_finite (isFinite_toDecimal hn)
      have hnearest : (float x).nearestInt = (float x).toDecimal.nearestInt := rfl
      rw [hnearest, hx]
      exact Decimal.nearestAway_nearestInt negative c e
  | decimal d =>
      obtain ⟨negative, c, e, rfl⟩ := Decimal.exists_finite (isFinite_toDecimal hn)
      exact Decimal.nearestAway_nearestInt negative c e

end Number

/-- Without a mark, the sign policy leaves a minus and puts its own sign in front of digits. -/
theorem Specifier.signed_signText {base : Nat} {spec : Specifier} (hmark : spec.mark = [])
    (hb : base ≤ Numeral.signs) {t : Text} (ht : t.Begins (Numeral.Digit base)) (negative : Bool) :
    spec.sign.signed [] (Decimal.signText negative ++ t) = spec.signOf negative ++ t := by
  have hfront : Shaped.front spec (Decimal.signText negative ++ t) = spec.signOf negative := by
    rw [Shaped.front, Shaped.sign_signText spec hb ht]
    exact (congrArg _ hmark).trans (List.append_nil _)
  rw [← hmark, ← Shaped.front_append_sign, hfront, Shaped.sign_signText spec hb ht]

namespace Value

variable {n : Number} {spec : Specifier}

/-- An ordinal without a width is the sign, the numeral of the nearest whole number, halves going
away from zero, and the suffix of that numeral. An `int` and a `decimal` are rounded as the numbers
that they are, a `float` as the decimal that its text is read as. -/
theorem layOut_nearest (hn : n.isFinite = true) (hk : spec.conversion.isOrdinal = true)
    (hwidth : spec.width = .given 0) :
    (∀ m, n = .int m → n.toDecimal.toRat = m) ∧
    (∀ y, n = .float y → Decimal.ofText? y.text = some n.toDecimal) ∧
    (∀ d, n = .decimal d → n.toDecimal = d) ∧
    ∃ (r : Int) (x : Expansion), (∀ m, NearestAway n.toDecimal.toRat m ↔ m = r) ∧
      x.Canonical 10 ∧ x.fraction = [] ∧ x.value 10 = r.natAbs ∧
      (x.whole.length ≤ Numeral.longest → ∀ decorate, n.toValue.layOut spec decorate =
        .ok (.of (spec.signOf (r < 0) ++ (x.text false ++
          if spec.conversion.isUpper then (Numeral.suffixOf (x.text false)).map Char.toUpper
          else Numeral.suffixOf (x.text false))))) := by
  refine ⟨?_, ?_, ?_, ?_⟩
  · rintro m rfl
    exact Decimal.toRat_ofInt m
  · rintro y rfl
    exact Binary64.ofText?_text hn
  · rintro d rfl
    rfl
  · refine ⟨n.nearestInt, ⟨Numeral.digits 10 n.nearestInt.natAbs, []⟩, ?_,
      Expansion.canonical_digits (by decide) _, rfl, Expansion.value_digits (by decide) _, ?_⟩
    · intro m
      have hnearest := Number.nearestAway_nearestInt hn
      exact ⟨fun hm => hm.unique hnearest, fun hm => hm ▸ hnearest⟩
    · intro hlength decorate
      have htext : Expansion.text false ⟨Numeral.digits 10 n.nearestInt.natAbs, []⟩ =
          Numeral.ofNat n.nearestInt.natAbs := Expansion.text_of_fraction_eq_nil false _
      have hlong : (Numeral.ofNat n.nearestInt.natAbs).length ≤ Numeral.longest := by
        rw [Numeral.ofNat, List.length_map]
        exact hlength
      have hbegins : (Numeral.ofNat n.nearestInt.natAbs).Begins (Numeral.Digit 10) := by
        rw [← htext]
        exact Expansion.begins_text (Expansion.canonical_digits (by decide) _).toValid false
      have htarget : spec.targetWidth = 0 := by
        rw [Specifier.targetWidth, hwidth]
        rfl
      have hmark := spec.mark_of_base?_eq_none (Conversion.base?_of_isOrdinal hk).1
      rw [htext, Numeral.suffixOf_ofNat, layOut_ordinal hk (number?_toValue n) hn,
        Numeral.ordinal_eq_ok hlong, Outcome.ok_bind,
        Specifier.signed_signText hmark (by decide) (hbegins.append _), htarget]
      exact Rendered.align_of_le (Int.natCast_nonneg _) _ _

/-- A half of a negative number goes down, and the suffix is that of thirteen. -/
theorem layOut_nearest_thirteenth :
    let n : Number := .decimal (.finite true 1125 (-1))
    let spec : Specifier := { sign := .plus, conversion := .ordinalUpper }
    (∀ m, NearestAway n.toDecimal.toRat m ↔ m = -113) ∧
      n.toValue.layOut spec true = .ok (.of "-113TH".toList) := by
  intro n spec
  obtain ⟨-, -, -, r, x, hr, -⟩ := @layOut_nearest n spec rfl rfl rfl
  have hnearest := Decimal.nearestAway_nearestInt true 1125 (-1)
  refine ⟨?_, by decide +kernel⟩
  rwa [← (hr (-113)).mp hnearest] at hr

end Value

end SlotText
