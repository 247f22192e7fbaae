import SlotText.Proofs.Number.Expanded
import SlotText.Proofs.Number.Signed

/-!
# Canonical numerals of whole numbers

In every base up to the number of signs a whole number has one canonical numeral: a minus sign if it
is negative, and then signs of the base, read by their positions, without a zero in front that could
be left out. This is what the number is written as. It does not matter whether the digits are found
by dividing again and again or taken from the library, which has signs for the bases up to sixteen.
A numeral says which number it is, so different numbers are never written alike.
-/
namespace SlotText

namespace Numeral

/-- The digit of a sign. Only figures and small letters are signs. -/
def digit? (c : Char) : Option Nat :=
  if isDigit c then some (c.toNat - 48)
  else if 'a' ≤ c ∧ c ≤ 'z' then some (c.toNat - 87)
  else none

/-- A text of signs of the base that is read as a number and cannot be shortened. -/
structure Canonical (base n : Nat) (s : Text) : Prop where
  ne_nil : s ≠ []
  signs : ∀ c ∈ s, ∃ d < base, digit? c = some d
  leading : s.head? = some '0' → s = ['0']
  value_eq : value base (s.filterMap digit?) = n

variable {base n d : Nat} {c : Char} {s : Text} {ds : List Nat}

theorem digit?_sign (h : d < signs) : digit? (sign d) = some d := by
  have hall : ∀ d < signs, digit? (sign d) = some d := by decide
  exact hall d h

theorem sign_of_digit? (h : digit? c = some d) : sign d = c := by
  unfold digit? at h
  split_ifs at h with hfigure hletter
  · obtain rfl := Option.some.inj h
    have hlow : 48 ≤ c.toNat := (of_decide_eq_true hfigure).1
    have hhigh : c.toNat ≤ 57 := (of_decide_eq_true hfigure).2
    rw [sign, if_pos (by omega), Nat.add_sub_cancel' hlow, Char.ofNat_toNat]
  · obtain rfl := Option.some.inj h
    have hlow : 97 ≤ c.toNat := hletter.1
    rw [sign, if_neg (by omega), Nat.add_sub_cancel' (by omega), Char.ofNat_toNat]

/-- Reading signs gives back the digits that they were written for. -/
theorem filterMap_map_sign (hds : ∀ d ∈ ds, d < signs) :
    (ds.map sign).filterMap digit? = ds := by
  induction ds with
  | nil => rfl
  | cons d ds ih =>
      obtain ⟨hd, hrest⟩ := List.forall_mem_cons.mp hds
      simp [digit?_sign hd, ih hrest]

/-- Writing digits gives back the signs that they were read from. -/
theorem map_filterMap_digit? (hs : ∀ c ∈ s, ∃ d < base, digit? c = some d) :
    (s.filterMap digit?).map sign = s := by
  induction s with
  | nil => rfl
  | cons c s ih =>
      obtain ⟨⟨d, -, hd⟩, hrest⟩ := List.forall_mem_cons.mp hs
      simp [hd, sign_of_digit? hd, ih hrest]

theorem lt_of_mem_filterMap (hs : ∀ c ∈ s, ∃ d < base, digit? c = some d) :
    ∀ d ∈ s.filterMap digit?, d < base := by
  intro d hd
  obtain ⟨c, hc, hdigit⟩ := List.mem_filterMap.mp hd
  obtain ⟨d', hlt, hd'⟩ := hs c hc
  exact Option.some.inj (hd'.symm.trans hdigit) ▸ hlt

theorem canonical_map_sign (hb : 2 ≤ base) (hs : base ≤ signs) (n : Nat) :
    Canonical base n ((digits base n).map sign) := by
  have hwhole := Expansion.canonical_digits hb n
  have hlt : ∀ d ∈ digits base n, d < signs := fun d hd => (hwhole.whole_lt d hd).trans_le hs
  refine ⟨by simpa using hwhole.whole_ne_nil, ?_, ?_, ?_⟩
  · intro c hc
    obtain ⟨d, hd, rfl⟩ := List.mem_map.mp hc
    exact ⟨d, hwhole.whole_lt d hd, digit?_sign (hlt d hd)⟩
  · intro hhead
    rw [List.head?_map] at hhead
    obtain ⟨d, hd, hzero⟩ := Option.map_eq_some_iff.mp hhead
    have hdigit := digit?_sign (hlt d (List.mem_of_mem_head? hd))
    rw [hzero] at hdigit
    obtain rfl : 0 = d := Option.some.inj hdigit
    rw [show digits base n = [0] from hwhole.leading hd]
    rfl
  · rw [filterMap_map_sign hlt, value_digits base hb]

theorem Canonical.eq (hb : 2 ≤ base) (h : Canonical base n s) : s = (digits base n).map sign := by
  have hsigns := map_filterMap_digit? h.signs
  -- A zero among the digits is a zero among the signs, so the digits cannot be shortened either.
  have hdigits : s.filterMap digit? = digits base n := by
    rw [← h.value_eq]
    refine eq_digits_value hb ?_ (lt_of_mem_filterMap h.signs) ?_
    · intro hnil
      exact h.ne_nil (by rw [← hsigns, hnil, List.map_nil])
    · intro hzero
      have hhead : s.head? = some '0' := by rw [← hsigns, List.head?_map, hzero]; rfl
      rw [h.leading hhead]
      rfl
  rw [← hdigits, hsigns]

theorem canonical_iff (hb : 2 ≤ base) (hs : base ≤ signs) :
    Canonical base n s ↔ s = (digits base n).map sign := by
  constructor
  · exact Canonical.eq hb
  · rintro rfl
    exact canonical_map_sign hb hs n

/-- However much fuel there is for it, dividing comes to an end by itself. -/
theorem digitsOnto_eq_digits (hb : 2 ≤ base) {fuel : Nat} (h : n < fuel) :
    digitsOnto base fuel n [] = digits base n := by
  rw [digitsOnto_eq base hb n fuel [] h, List.append_nil, digits_eq_digitsOnto base hb]

theorem digitChar_eq_sign (h : d < 16) : Nat.digitChar d = sign d := by
  have hall : ∀ d < 16, Nat.digitChar d = sign d := by decide
  exact hall d h

/-- The library has the same numerals for all bases that it has signs for. -/
theorem toDigits_eq_map_sign (hb : 2 ≤ base) (h : base ≤ 16) (n : Nat) :
    Nat.toDigits base n = (digits base n).map sign := by
  induction n using Nat.strongRecOn with
  | _ n ih =>
      rcases Nat.lt_or_ge n base with hlt | hle
      · rw [Nat.toDigits_of_lt_base hlt, digits_eq base hb, if_pos (Nat.div_eq_of_lt hlt),
          Nat.mod_eq_of_lt hlt, digitChar_eq_sign (hlt.trans_le h)]
        rfl
      · have hq : ¬n / base = 0 := by
          rw [Nat.div_eq_zero_iff]
          omega
        have hmod : n % base < 16 := (Nat.mod_lt n (by omega)).trans_le h
        rw [Nat.toDigits_of_base_le hb hle, ih _ (quotient_lt hb hq), digits_eq base hb n,
          if_neg hq, List.map_append, digitChar_eq_sign hmod]
        rfl

end Numeral

/-- A minus sign if the number is negative, and then the canonical numeral of its magnitude. -/
def Text.IsNumeral (base : Nat) (n : Int) (s : Text) : Prop :=
  ∃ t : Text, s = (if n < 0 then '-' :: t else t) ∧ Numeral.Canonical base n.natAbs t

variable {base : Nat} {m n : Int} {s : Text}

theorem Decimal.signText_append (negative : Bool) (s : Text) :
    signText negative ++ s = if negative then '-' :: s else s := by
  cases negative <;> rfl

theorem Numeral.Canonical.head?_ne {k : Nat} (h : Canonical base k s) : s.head? ≠ some '-' := by
  intro hhead
  obtain ⟨d, -, hd⟩ := h.signs '-' (List.mem_of_mem_head? hhead)
  cases hd

theorem Text.isNumeral_iff (hb : 2 ≤ base) (hs : base ≤ Numeral.signs) :
    s.IsNumeral base n ↔
      s = Decimal.signText (n < 0) ++ (Numeral.digits base n.natAbs).map Numeral.sign := by
  simp [IsNumeral, Numeral.canonical_iff hb hs, Decimal.signText_append]

/-- A text is the numeral of one number at most. -/
theorem Text.IsNumeral.unique (h : s.IsNumeral base m) (h' : s.IsNumeral base n) : m = n := by
  obtain ⟨t, rfl, ht⟩ := h
  obtain ⟨t', heq, ht'⟩ := h'
  have hvalue : t = t' → m.natAbs = n.natAbs := by
    rintro rfl
    exact ht.value_eq.symm.trans ht'.value_eq
  -- If only one of them has a sign in front, the sign would be a digit of the other.
  split_ifs at heq with hm hn hn
  · have habs := hvalue (List.cons.inj heq).2
    omega
  · exact absurd (heq ▸ rfl) ht'.head?_ne
  · exact absurd (heq ▸ rfl) ht.head?_ne
  · have habs := hvalue heq
    omega

namespace Number

/-- A whole number is written as its canonical numeral, in every base that there are signs for. The
digits are those found by dividing, with any amount of fuel that suffices, and those of the library
in the bases that it has signs for. And no two whole numbers are written alike in a base. -/
theorem inBase_canonical (hb : 2 ≤ base) (hs : base ≤ Numeral.signs) :
    (∀ n : Int, ∃ s, (int n).inBase base = .ok s ∧ (∀ t : Text, t.IsNumeral base n ↔ t = s) ∧
      (∀ fuel, n.natAbs < fuel → s = Decimal.signText (n < 0) ++
        (Numeral.digitsOnto base fuel n.natAbs []).map Numeral.sign) ∧
      (base ≤ 16 → s = Decimal.signText (n < 0) ++ Nat.toDigits base n.natAbs)) ∧
    ∀ m n : Int, (int m).inBase base = (int n).inBase base → m = n := by
  have hwritten : ∀ n : Int, (int n).inBase base = .ok (Decimal.signText (n < 0) ++
      (Numeral.digits base n.natAbs).map Numeral.sign) := by
    intro n
    rw [inBase, Radix.ofInt_eq hb hs, Expansion.text_of_fraction_eq_nil, Numeral.signIn_false]
  constructor
  · intro n
    refine ⟨_, hwritten n, fun t => Text.isNumeral_iff hb hs, ?_, ?_⟩
    · intro fuel hfuel
      rw [Numeral.digitsOnto_eq_digits hb hfuel]
    · intro hbase
      rw [Numeral.toDigits_eq_map_sign hb hbase]
  · intro m n heq
    rw [hwritten, hwritten] at heq
    have hm := (Text.isNumeral_iff (n := m) hb hs).mpr rfl
    have hn := (Text.isNumeral_iff (n := n) hb hs).mpr rfl
    exact hm.unique (Except.ok.inj heq ▸ hn)

/-- A negative number in a base of the library. -/
theorem inBase_canonical_hex :
    (int (-48879)).inBase 16 = .ok "-beef".toList ∧
      Text.IsNumeral 16 (-48879) "-beef".toList ∧
      "-beef".toList = '-' :: Nat.toDigits 16 48879 ∧
      (int 48879).inBase 16 ≠ .ok "-beef".toList := by
  have hcanonical := @inBase_canonical 16 (by decide) (by decide)
  have hwritten : (int (-48879)).inBase 16 = .ok "-beef".toList := by decide +kernel
  obtain ⟨s, hs, hnumeral, -, hlibrary⟩ := hcanonical.1 (-48879)
  obtain rfl := Except.ok.inj (hwritten.symm.trans hs)
  refine ⟨hwritten, (hnumeral _).mpr rfl, hlibrary (by decide), fun h => ?_⟩
  exact absurd (hcanonical.2 _ _ (hwritten.trans h.symm)) (by decide)

end Number

end SlotText
