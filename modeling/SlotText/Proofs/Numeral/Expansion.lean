import SlotText.Proofs.Numeral.Decimal
import Mathlib.Data.Nat.Digits.Lemmas
import Mathlib.Algebra.Order.Floor.Semifield
import Mathlib.Data.Rat.Floor
import Mathlib.Tactic.Positivity
import Mathlib.Tactic.Ring

/-!
# Expansions

An expansion is a numeral with a point: the digits before the point and those behind it, in some
base. Without digits behind it the point is not written. Cutting the digits off behind a place, or
adding zeros up to it, rounds the number toward zero to that many places.

An expansion is canonical if nothing in it can be left out: there is a digit before the point, it
is zero only if it is the only one there, and the last digit behind the point is not zero. Every
number has at most one canonical expansion in a base.
-/
namespace SlotText

namespace Numeral

variable {base : Nat} {ds es : List Nat}

/-- The value of digits agrees with that of the library, where the least significant come first. -/
theorem value_eq_ofDigits (base : Nat) (ds : List Nat) :
    value base ds = Nat.ofDigits base ds.reverse := by
  induction ds using List.reverseRecOn with
  | nil => rfl
  | append_singleton ds d ih =>
      rw [value_append_singleton, ih, List.reverse_append, List.reverse_singleton,
        List.singleton_append, Nat.ofDigits_cons, Nat.add_comm]

theorem value_append (base : Nat) (ds es : List Nat) :
    value base (ds ++ es) = value base ds * base ^ es.length + value base es := by
  rw [value_eq_ofDigits, value_eq_ofDigits, value_eq_ofDigits, List.reverse_append,
    Nat.ofDigits_append, List.length_reverse]
  ring

theorem value_cons (base d : Nat) (ds : List Nat) :
    value base (d :: ds) = d * base ^ ds.length + value base ds := by
  have hone : value base [d] = d := Nat.zero_add d
  rw [← List.singleton_append, value_append, hone]

theorem value_replicate_zero (base n : Nat) : value base (List.replicate n 0) = 0 := by
  rw [value_eq_ofDigits, List.reverse_replicate, Nat.ofDigits_replicate_zero]

theorem value_zeros_append (base n : Nat) (ds : List Nat) :
    value base (List.replicate n 0 ++ ds) = value base ds := by
  rw [value_append, value_replicate_zero, Nat.zero_mul, Nat.zero_add]

theorem value_append_zeros (base n : Nat) (ds : List Nat) :
    value base (ds ++ List.replicate n 0) = value base ds * base ^ n := by
  rw [value_append, value_replicate_zero, List.length_replicate, Nat.add_zero]

theorem value_lt (hb : 2 ≤ base) (h : ∀ d ∈ ds, d < base) : value base ds < base ^ ds.length := by
  rw [value_eq_ofDigits, ← List.length_reverse]
  apply Nat.ofDigits_lt_base_pow_length hb
  intro d hd
  exact h d (List.mem_reverse.mp hd)

theorem lt_of_mem_zeros (hb : 2 ≤ base) {n d : Nat} (hd : d ∈ List.replicate n 0) : d < base := by
  rw [(List.mem_replicate.mp hd).2]
  omega

/-- Digits in the same number are told from one another by their value. -/
theorem eq_of_value_eq (hb : 2 ≤ base) (hds : ∀ d ∈ ds, d < base) (hes : ∀ d ∈ es, d < base)
    (hlength : ds.length = es.length) (h : value base ds = value base es) : ds = es := by
  rw [value_eq_ofDigits, value_eq_ofDigits] at h
  apply List.reverse_injective
  refine Nat.ofDigits_inj_of_len_eq hb ?_ ?_ ?_ h
  · rw [List.length_reverse, List.length_reverse, hlength]
  · intro d hd
    exact hds d (List.mem_reverse.mp hd)
  · intro d hd
    exact hes d (List.mem_reverse.mp hd)

/-- If as many digits stand at the end of both, the value tells them from those in front. -/
theorem value_append_inj {ds' es' : List Nat} (hb : 2 ≤ base) (hes : ∀ d ∈ es, d < base)
    (hes' : ∀ d ∈ es', d < base) (hlength : es.length = es'.length)
    (h : value base (ds ++ es) = value base (ds' ++ es')) :
    value base ds = value base ds' ∧ value base es = value base es' := by
  have hpos : 0 < base ^ es'.length := Nat.pow_pos (by omega)
  have hlt := value_lt hb hes
  have hlt' := value_lt hb hes'
  rw [hlength] at hlt
  rw [value_append, value_append, hlength, Nat.mul_comm, Nat.mul_comm (value base ds')] at h
  constructor
  · have hdiv := congrArg (· / base ^ es'.length) h
    simpa only [Nat.mul_add_div hpos, Nat.div_eq_of_lt hlt, Nat.div_eq_of_lt hlt',
      Nat.add_zero] using hdiv
  · have hmod := congrArg (· % base ^ es'.length) h
    simpa only [Nat.mul_add_mod, Nat.mod_eq_of_lt hlt, Nat.mod_eq_of_lt hlt'] using hmod

theorem eq_zero_of_dvd_value {d : Nat} (hd : d < base) (h : base ∣ value base (ds ++ [d])) :
    d = 0 := by
  rw [value_append_singleton, Nat.dvd_add_right (Nat.dvd_mul_right _ _)] at h
  exact Nat.eq_zero_of_dvd_of_lt h hd

theorem digits_zero (hb : 2 ≤ base) : digits base 0 = [0] := by
  rw [digits_eq base hb, if_pos (Nat.zero_div base), Nat.zero_mod, List.nil_append]

/-- Digits without a zero in front are those that the library gives for their value. -/
theorem reverse_eq_digits_value (hb : 2 ≤ base) (hds : ∀ d ∈ ds, d < base)
    (hhead : ds.head? ≠ some 0) : ds.reverse = Nat.digits base (value base ds) := by
  rw [value_eq_ofDigits]
  refine (Nat.digits_ofDigits base hb ds.reverse ?_ ?_).symm
  · intro d hd
    exact hds d (List.mem_reverse.mp hd)
  · intro hne hlast
    apply hhead
    rw [← List.getLast?_reverse, List.getLast?_eq_getLast_of_ne_nil hne, hlast]

theorem reverse_digits (hb : 2 ≤ base) {n : Nat} (hn : n ≠ 0) :
    (digits base n).reverse = Nat.digits base n := by
  rw [reverse_eq_digits_value hb (fun d => lt_of_mem_digits hb) (head?_digits_ne_zero hb hn),
    value_digits base hb]

theorem length_digits (hb : 2 ≤ base) {n : Nat} (hn : n ≠ 0) :
    (digits base n).length = Nat.log base n + 1 := by
  rw [← List.length_reverse, reverse_digits hb hn, Nat.length_digits base n hb hn]

/-- A numeral without zeros in front consists of the digits of its value. -/
theorem eq_digits_value (hb : 2 ≤ base) (hne : ds ≠ []) (hds : ∀ d ∈ ds, d < base)
    (hhead : ds.head? = some 0 → ds = [0]) : ds = digits base (value base ds) := by
  by_cases hzero : ds.head? = some 0
  · rw [hhead hzero]
    exact (digits_zero hb).symm
  · have hdigits := reverse_eq_digits_value hb hds hzero
    have hvalue : value base ds ≠ 0 := by
      intro hvalue
      rw [hvalue, Nat.digits_zero, List.reverse_eq_nil_iff] at hdigits
      exact hne hdigits
    exact List.reverse_injective (hdigits.trans (reverse_digits hb hvalue).symm)

/-- The sign of a digit, with letters in upper or lower case. -/
def signIn (upper : Bool) (d : Nat) : Char := if upper then (sign d).toUpper else sign d

theorem signIn_false : signIn false = sign := rfl

theorem signIn_zero (upper : Bool) : signIn upper 0 = '0' := by
  cases upper <;> rfl

end Numeral

/-- Digits before and behind a point. -/
structure Expansion where
  whole : List Nat
  fraction : List Nat
  deriving DecidableEq, Repr

namespace Expansion

open Numeral (signIn)

/-- The expansion as it is written. -/
def text (upper : Bool) (x : Expansion) : Text :=
  x.whole.map (signIn upper) ++
    if x.fraction = [] then [] else '.' :: x.fraction.map (signIn upper)

/-- The number that the expansion stands for. -/
def value (base : Nat) (x : Expansion) : ℚ :=
  Numeral.value base (x.whole ++ x.fraction) / base ^ x.fraction.length

/-- There is a digit before the point, and all digits are digits of the base. -/
structure Valid (base : Nat) (x : Expansion) : Prop where
  whole_ne_nil : x.whole ≠ []
  whole_lt : ∀ d ∈ x.whole, d < base
  fraction_lt : ∀ d ∈ x.fraction, d < base

/-- Nothing can be left out. -/
structure Canonical (base : Nat) (x : Expansion) : Prop extends Valid base x where
  leading : x.whole.head? = some 0 → x.whole = [0]
  trailing : x.fraction.getLast? ≠ some 0

/-- As many digits behind the point as `places` says: the others are cut off, and zeros are put
where there are none. -/
def truncated (places : Nat) (x : Expansion) : Expansion :=
  ⟨x.whole, x.fraction.take places ++ List.replicate (places - x.fraction.length) 0⟩

/-- All places that there are behind the point belong to a number rounded toward zero to them. -/
structure Truncates (base places : Nat) (r : ℚ) (x : Expansion) : Prop extends Valid base x where
  length_fraction : x.fraction.length = places
  value_eq : x.value base = ⌊r * base ^ places⌋₊ / (base : ℚ) ^ places

variable {base : Nat} {x y : Expansion}

theorem text_of_fraction_eq_nil (upper : Bool) (ds : List Nat) :
    text upper ⟨ds, []⟩ = ds.map (signIn upper) :=
  List.append_nil _

theorem value_nonneg (base : Nat) (x : Expansion) : 0 ≤ x.value base := by
  unfold value
  positivity

theorem value_of_fraction_eq_nil (ds : List Nat) : value base ⟨ds, []⟩ = Numeral.value base ds := by
  rw [value, List.append_nil, List.length_nil, pow_zero, div_one]

theorem Valid.exists_cons (h : x.Valid base) : ∃ d ds, x.whole = d :: ds ∧ d < base := by
  obtain ⟨d, ds, hwhole⟩ := List.exists_cons_of_ne_nil h.whole_ne_nil
  exact ⟨d, ds, hwhole, h.whole_lt d (by rw [hwhole]; exact List.mem_cons_self)⟩

/-- The digits before the point are the whole part. -/
theorem Valid.value_bounds (h : x.Valid base) (hb : 2 ≤ base) :
    (Numeral.value base x.whole : ℚ) ≤ x.value base ∧
      x.value base < Numeral.value base x.whole + 1 := by
  have hpos : (0 : ℚ) < base ^ x.fraction.length := by exact_mod_cast Nat.pow_pos (by omega)
  have hlt : (Numeral.value base x.fraction : ℚ) < base ^ x.fraction.length := by
    exact_mod_cast Numeral.value_lt hb h.fraction_lt
  have hnonneg : (0 : ℚ) ≤ Numeral.value base x.fraction := Nat.cast_nonneg _
  rw [value, Numeral.value_append, le_div_iff₀ hpos, div_lt_iff₀ hpos]
  push_cast
  constructor
  · linarith
  · linarith

theorem Valid.truncated (h : x.Valid base) (hb : 2 ≤ base) (places : Nat) :
    (x.truncated places).Valid base := by
  refine ⟨h.whole_ne_nil, h.whole_lt, ?_⟩
  intro d hd
  rcases List.mem_append.mp hd with hd | hd
  · exact h.fraction_lt d (List.mem_of_mem_take hd)
  · exact Numeral.lt_of_mem_zeros hb hd

theorem length_fraction_truncated (places : Nat) (x : Expansion) :
    (x.truncated places).fraction.length = places := by
  simp only [Expansion.truncated, List.length_append, List.length_take, List.length_replicate]
  omega

/-- Digits behind a place are less than one of that place. -/
theorem div_pow_eq_truncated (hb : 2 ≤ base) (h : x.Valid base) (places : Nat) :
    Numeral.value base (x.whole ++ x.fraction) * base ^ places / base ^ x.fraction.length =
      Numeral.value base ((x.truncated places).whole ++ (x.truncated places).fraction) := by
  have hpos : ∀ n, 0 < base ^ n := fun n => Nat.pow_pos (by omega)
  rcases Nat.le_total places x.fraction.length with hle | hle
  · have hsplit : x.whole ++ x.fraction =
        (x.whole ++ x.fraction.take places) ++ x.fraction.drop places := by
      rw [List.append_assoc, List.take_append_drop]
    have hcut : x.truncated places = ⟨x.whole, x.fraction.take places⟩ := by
      rw [Expansion.truncated, Nat.sub_eq_zero_of_le hle, List.replicate_zero, List.append_nil]
    have hlt : Numeral.value base (x.fraction.drop places) <
        base ^ (x.fraction.length - places) := by
      rw [← List.length_drop]
      exact Numeral.value_lt hb fun d hd => h.fraction_lt d (List.mem_of_mem_drop hd)
    have hpow : base ^ x.fraction.length = base ^ (x.fraction.length - places) * base ^ places := by
      rw [← pow_add, Nat.sub_add_cancel hle]
    rw [hcut, hsplit, Numeral.value_append, List.length_drop, hpow,
      Nat.mul_div_mul_right _ _ (hpos places), Nat.mul_comm, Nat.mul_add_div (hpos _),
      Nat.div_eq_of_lt hlt, Nat.add_zero]
  · have hfill : x.truncated places =
        ⟨x.whole, x.fraction ++ List.replicate (places - x.fraction.length) 0⟩ := by
      rw [Expansion.truncated, List.take_of_length_le hle]
    have hpow : base ^ places = base ^ (places - x.fraction.length) * base ^ x.fraction.length := by
      rw [← pow_add, Nat.sub_add_cancel hle]
    rw [hfill, ← List.append_assoc, Numeral.value_append_zeros, hpow, ← Nat.mul_assoc,
      Nat.mul_div_cancel _ (hpos _)]

/-- Cutting digits off rounds toward zero. -/
theorem Valid.truncates (h : x.Valid base) (hb : 2 ≤ base) (places : Nat) :
    (x.truncated places).Truncates base places (x.value base) := by
  refine ⟨h.truncated hb places, length_fraction_truncated places x, ?_⟩
  have hratio : x.value base * base ^ places =
      ((Numeral.value base (x.whole ++ x.fraction) * base ^ places : ℕ) : ℚ) /
        ((base ^ x.fraction.length : ℕ) : ℚ) := by
    unfold value
    push_cast
    ring
  rw [hratio, Nat.floor_div_eq_div, div_pow_eq_truncated hb h, value, length_fraction_truncated]

/-- Further digits behind the point multiply the value of all digits. -/
theorem value_eq_mul_pow (hb : 2 ≤ base) {k : Nat}
    (hk : x.fraction.length = y.fraction.length + k) (h : x.value base = y.value base) :
    Numeral.value base (x.whole ++ x.fraction) =
      Numeral.value base (y.whole ++ y.fraction) * base ^ k := by
  have hbase : (base : ℚ) ≠ 0 := Nat.cast_ne_zero.mpr (by omega)
  have hpow := fun n => pow_ne_zero n hbase
  unfold value at h
  rw [hk, div_eq_div_iff (hpow _) (hpow _), pow_add] at h
  have hcancel : (Numeral.value base (x.whole ++ x.fraction) : ℚ) =
      Numeral.value base (y.whole ++ y.fraction) * base ^ k := by
    apply mul_right_cancel₀ (hpow y.fraction.length)
    rw [h]
    ring
  exact_mod_cast hcancel

/-- Of two expansions of the same number, one with more digits behind the point ends in a zero. -/
theorem Canonical.length_fraction_le (hb : 2 ≤ base) (hx : x.Canonical base)
    (h : x.value base = y.value base) : x.fraction.length ≤ y.fraction.length := by
  by_contra hlt
  obtain ⟨k, hk⟩ : ∃ k, x.fraction.length = y.fraction.length + (k + 1) :=
    ⟨x.fraction.length - y.fraction.length - 1, by omega⟩
  have hne : x.fraction ≠ [] := by
    apply List.ne_nil_of_length_pos
    omega
  obtain ⟨ds, d, hds⟩ := (List.eq_nil_or_concat x.fraction).resolve_left hne
  rw [List.concat_eq_append] at hds
  have hdigit : d < base := hx.fraction_lt d (by rw [hds]; simp)
  -- The value of all digits is a multiple of the base, and so the last one is zero.
  have hvalue := value_eq_mul_pow hb hk h
  rw [hds, ← List.append_assoc, pow_succ, ← Nat.mul_assoc] at hvalue
  apply hx.trailing
  rw [hds, List.getLast?_concat, Numeral.eq_zero_of_dvd_value hdigit (Dvd.intro_left _ hvalue.symm)]

theorem Canonical.eq_of_value_eq (hb : 2 ≤ base) (hx : x.Canonical base) (hy : y.Canonical base)
    (h : x.value base = y.value base) : x = y := by
  have hlength : x.fraction.length = y.fraction.length :=
    Nat.le_antisymm (hx.length_fraction_le hb h) (hy.length_fraction_le hb h.symm)
  have hvalue := value_eq_mul_pow hb (k := 0) hlength h
  rw [pow_zero, Nat.mul_one] at hvalue
  obtain ⟨hwhole, hfraction⟩ :=
    Numeral.value_append_inj hb hx.fraction_lt hy.fraction_lt hlength hvalue
  have hwholes : x.whole = y.whole := by
    rw [Numeral.eq_digits_value hb hx.whole_ne_nil hx.whole_lt hx.leading, hwhole]
    exact (Numeral.eq_digits_value hb hy.whole_ne_nil hy.whole_lt hy.leading).symm
  have hfractions : x.fraction = y.fraction :=
    Numeral.eq_of_value_eq hb hx.fraction_lt hy.fraction_lt hlength hfraction
  cases x
  cases y
  exact congrArg₂ _ hwholes hfractions

/-- The digits of a natural number are its canonical expansion. -/
theorem canonical_digits (hb : 2 ≤ base) (n : Nat) :
    Canonical base ⟨Numeral.digits base n, []⟩ := by
  refine ⟨⟨Numeral.digits_ne_nil base hb n, fun d => Numeral.lt_of_mem_digits hb, by simp⟩, ?_,
    by simp⟩
  intro hhead
  rcases Nat.eq_zero_or_pos n with rfl | hn
  · exact Numeral.digits_zero hb
  · exact absurd hhead (Numeral.head?_digits_ne_zero hb hn.ne')

theorem value_digits (hb : 2 ≤ base) (n : Nat) : value base ⟨Numeral.digits base n, []⟩ = n := by
  rw [value_of_fraction_eq_nil, Numeral.value_digits base hb]

end Expansion

end SlotText
