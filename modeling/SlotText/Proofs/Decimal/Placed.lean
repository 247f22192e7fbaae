import SlotText.Proofs.Decimal.Rational

/-!
# Digits around a point

Digits with a point after some of them are an expansion, with zeros on the side where digits are
missing. Moving the point by a place is multiplying by the base. So a decimal that is written
without a power of ten is written as it is, wherever its digits stand.
-/
namespace SlotText

namespace Expansion

variable {base : Nat} {ds : List Nat} {place : Int}

/-- Digits with a point after the first `place` of them, and zeros where there are none. -/
def placed (ds : List Nat) (place : Int) : Expansion :=
  if place ≤ 0 then ⟨[0], List.replicate (-place).toNat 0 ++ ds⟩
  else ⟨ds.take place.toNat ++ List.replicate (place.toNat - ds.length) 0, ds.drop place.toNat⟩

theorem valid_placed (hb : 2 ≤ base) (hne : ds ≠ []) (hds : ∀ d ∈ ds, d < base) (place : Int) :
    (placed ds place).Valid base := by
  unfold placed
  split
  · refine ⟨List.cons_ne_nil 0 [], fun d hd => Numeral.lt_of_mem_zeros (n := 1) hb hd,
      fun d hd => ?_⟩
    rcases List.mem_append.mp hd with hd | hd
    · exact Numeral.lt_of_mem_zeros hb hd
    · exact hds d hd
  · refine ⟨?_, fun d hd => ?_, fun d hd => hds d (List.mem_of_mem_drop hd)⟩
    · have hlength := List.length_pos_of_ne_nil hne
      apply List.ne_nil_of_length_pos
      rw [List.length_append, List.length_take, List.length_replicate]
      omega
    · rcases List.mem_append.mp hd with hd | hd
      · exact hds d (List.mem_of_mem_take hd)
      · exact Numeral.lt_of_mem_zeros hb hd

/-- If no digits are missing behind the last one, then all of them are there and no others count. -/
theorem placed_of_le (h : place ≤ ds.length) :
    Numeral.value base ((placed ds place).whole ++ (placed ds place).fraction) =
      Numeral.value base ds ∧ ((placed ds place).fraction.length : Int) = ds.length - place := by
  unfold placed
  split
  · have hzeros := Numeral.value_zeros_append base ((-place).toNat + 1) ds
    rw [List.replicate_succ, List.cons_append] at hzeros
    refine ⟨hzeros, ?_⟩
    rw [List.length_append, List.length_replicate]
    omega
  · have hzero : place.toNat - ds.length = 0 := by omega
    rw [hzero, List.replicate_zero, List.append_nil, List.take_append_drop, List.length_drop]
    exact ⟨rfl, by omega⟩

/-- If all digits stand in front of the point, then zeros follow them. -/
theorem placed_of_ge (hne : ds ≠ []) (h : ds.length ≤ place) :
    placed ds place = ⟨ds ++ List.replicate (place - ds.length).toNat 0, []⟩ := by
  have hlength := List.length_pos_of_ne_nil hne
  have hzeros : place.toNat - ds.length = (place - ds.length).toNat := by omega
  rw [placed, if_neg (by omega), List.take_of_length_le (by omega),
    List.drop_eq_nil_of_le (by omega), hzeros]

theorem value_placed (hne : ds ≠ []) (place : Int) :
    (placed ds place).value base = Numeral.value base ds * (base : ℚ) ^ (place - ds.length) := by
  rcases Int.lt_or_le ds.length place with hlt | hle
  · have hzeros : place - ds.length = ((place - ds.length).toNat : Int) := by omega
    rw [placed_of_ge hne hlt.le, value_of_fraction_eq_nil, Numeral.value_append_zeros, hzeros,
      zpow_natCast, Int.toNat_natCast]
    push_cast
    rfl
  · obtain ⟨hvalue, hlength⟩ := @placed_of_le base ds place hle
    have hplaces : place - ds.length = -((placed ds place).fraction.length : Int) := by omega
    rw [value, hvalue, hplaces, zpow_neg, zpow_natCast, div_eq_mul_inv]

end Expansion

namespace Decimal

variable {ds : List Nat} {negative : Bool} {c : Nat} {e : Int}

theorem placePoint_map_sign (hne : ds ≠ []) (place : Int) :
    placePoint (ds.map Numeral.sign) place = (Expansion.placed ds place).text false := by
  have hzero := Numeral.signIn_zero false
  unfold placePoint Expansion.placed Expansion.text
  rw [← Numeral.signIn_false, List.length_map]
  split
  · have hfraction : List.replicate (-place).toNat 0 ++ ds ≠ [] := by
      intro hnil
      exact hne (List.append_eq_nil_iff.mp hnil).2
    rw [if_neg hfraction, List.map_append, List.map_replicate, hzero]
    rfl
  · split
    · next hle =>
        rw [if_pos (List.drop_eq_nil_of_le hle), List.take_of_length_le hle, List.map_append,
          List.map_replicate, hzero, List.append_nil]
    · next hlt =>
        have hfraction : ds.drop place.toNat ≠ [] := by
          rw [ne_eq, List.drop_eq_nil_iff]
          exact hlt
        rw [if_neg hfraction, Nat.sub_eq_zero_of_le (Nat.le_of_not_le hlt), List.replicate_zero,
          List.append_nil, List.map_take, List.map_drop]

/-- Without a power of ten, a decimal is written as an expansion of what it stands for. -/
theorem exists_fixedText (negative : Bool) (c : Nat) (e : Int) : ∃ x : Expansion,
    (finite negative c e).fixedText = signText negative ++ x.text false ∧ x.Valid 10 ∧
      x.value 10 = c * 10 ^ e := by
  by_cases hzero : c = 0 ∧ 0 ≤ e
  · have hvalid := @Expansion.canonical_digits 10 (by decide) 0
    rw [Numeral.digits_zero (by decide)] at hvalid
    refine ⟨⟨[0], []⟩, ?_, hvalid.toValid, ?_⟩
    · simp only [fixedText, if_pos hzero]
      rfl
    · rw [hzero.1, Nat.cast_zero, zero_mul, Expansion.value_of_fraction_eq_nil]
      exact Nat.cast_zero
  · have hne := Numeral.digits_ne_nil 10 (by decide) c
    refine ⟨.placed (Numeral.digits 10 c) (e + (Numeral.digits 10 c).length), ?_,
      Expansion.valid_placed (by decide) hne (fun d => Numeral.lt_of_mem_digits (by decide)) _, ?_⟩
    · simp only [fixedText, if_neg hzero, Numeral.ofNat, placePoint_map_sign hne, List.length_map]
    · rw [Expansion.value_placed hne, Numeral.value_digits 10 (by decide),
        Int.add_sub_cancel, Nat.cast_ofNat]

end Decimal

end SlotText
