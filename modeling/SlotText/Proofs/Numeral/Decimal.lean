import SlotText.Proofs.Outcome

/-!
# Numerals in base ten

The numeral of a natural number is a run of decimal digits that stands for the number. It is no
longer than the powers of ten above the number allow, and it begins with a zero only if the
number is zero. A whole number is written out exactly if it is below the power of ten that belongs
to the limit on digits.
-/
namespace SlotText.Numeral

theorem length_digits_le {base : Nat} (hb : 2 ≤ base) {n k : Nat} (hk : 0 < k)
    (h : n < Nat.pow base k) : (digits base n).length ≤ k := by
  induction k generalizing n with
  | zero => omega
  | succ k ih =>
      rw [digits_eq base hb, List.length_append, List.length_singleton]
      split
      · simp
      · next hq =>
          have hlt : n / base < Nat.pow base k := (Nat.div_lt_iff_lt_mul (by omega)).mpr h
          have hpos : 0 < k := by
            rcases Nat.eq_zero_or_pos k with hz | hz
            · rw [hz] at hlt
              exact absurd (Nat.lt_one_iff.mp hlt) hq
            · exact hz
          have := ih hpos hlt
          omega

theorem head?_digits_ne_zero {base : Nat} (hb : 2 ≤ base) {n : Nat} (hn : n ≠ 0) :
    (digits base n).head? ≠ some 0 := by
  induction n using Nat.strongRecOn with
  | _ n ih =>
      rw [digits_eq base hb]
      split
      · next hq =>
          have hm := Nat.div_add_mod n base
          rw [hq, Nat.mul_zero, Nat.zero_add] at hm
          simp [hm, hn]
      · next hq =>
          have hne := digits_ne_nil base hb (n / base)
          rw [List.head?_append, Option.or_of_isSome (by simpa using hne)]
          exact ih _ (quotient_lt hb hq) hq

theorem toNat_sign {d : Nat} (h : d < 10) : (sign d).toNat = 48 + d := by
  have hall : ∀ d < 10, (sign d).toNat = 48 + d := by decide
  exact hall d h

theorem isDigit_sign {d : Nat} (h : d < 10) : isDigit (sign d) = true := by
  have ht := toNat_sign h
  simp only [isDigit, decide_eq_true_eq, Char.le_def, UInt32.le_iff_toNat_le]
  unfold Char.toNat at ht
  rw [ht]
  exact ⟨by simp, by simp; omega⟩

theorem ofNat_ne_nil (n : Nat) : ofNat n ≠ [] := by
  simp [ofNat, digits_ne_nil 10 (by decide) n]

theorem ofInt_ne_nil (n : Int) : ofInt n ≠ [] := by
  cases n with
  | ofNat n => exact ofNat_ne_nil n
  | negSucc n => exact List.cons_ne_nil _ _

theorem isDigit_of_mem_ofNat {n : Nat} {c : Char} (h : c ∈ ofNat n) : isDigit c = true := by
  obtain ⟨d, hd, rfl⟩ := List.mem_map.mp h
  exact isDigit_sign (lt_of_mem_digits (by decide) hd)

theorem ofText_ofNat (n : Nat) : ofText (ofNat n) = n := by
  have hmap : ((ofNat n).map fun c => c.toNat - 48) = digits 10 n := by
    rw [ofNat, List.map_map]
    conv => rhs; rw [← List.map_id (digits 10 n)]
    apply List.map_congr_left
    intro d hd
    have ht := toNat_sign (lt_of_mem_digits (by decide) hd)
    simp only [Function.comp_apply, ht, id]
    omega
  rw [ofText, hmap, value_digits 10 (by decide)]

theorem length_ofNat_le {n k : Nat} (hk : 0 < k) (h : n < Nat.pow 10 k) : (ofNat n).length ≤ k := by
  rw [ofNat, List.length_map]
  exact length_digits_le (by decide) hk h

theorem head?_ofNat_ne_zero {n : Nat} (hn : n ≠ 0) : (ofNat n).head? ≠ some '0' := by
  intro h
  rw [ofNat, List.head?_map, Option.map_eq_some_iff] at h
  obtain ⟨d, hd, hs⟩ := h
  have hlt : d < 10 := lt_of_mem_digits (by decide) (List.mem_of_mem_head? hd)
  have ht := toNat_sign hlt
  rw [hs] at ht
  have hz : d = 0 := by
    have h48 : '0'.toNat = 48 := rfl
    omega
  exact head?_digits_ne_zero (by decide) hn (hz ▸ hd)

theorem write_eq_ok {n : Int} (h : n.natAbs < Nat.pow 10 longest) : write n = .ok (ofInt n) := by
  have hlength := length_ofNat_le (by decide) h
  rw [write, if_neg (by omega)]

theorem pow_ten_le {m n : Nat} (h : m ≤ n) : Nat.pow 10 m ≤ Nat.pow 10 n :=
  Nat.pow_le_pow_right (by decide) h

theorem write_eq_error {n : Int} (h : Nat.pow 10 longest ≤ n.natAbs) :
    write n = .error .numeralTooLong := by
  have hlong : longest < (ofNat n.natAbs).length := by
    rw [ofNat, List.length_map]
    apply Nat.lt_of_not_le
    intro hle
    have hpow : Nat.pow 10 (digits 10 n.natAbs).length ≤ Nat.pow 10 longest := pow_ten_le hle
    have hlt := lt_pow_length_digits 10 (by decide) n.natAbs
    exact Nat.lt_irrefl _ (Nat.lt_of_lt_of_le hlt (Nat.le_trans hpow h))
  rw [write, if_pos hlong]

/-- A number is written if it has no more digits than can be written. -/
theorem decided_write (n : Int) :
    Outcome.Decided (n.natAbs < Nat.pow 10 longest) .numeralTooLong (write n) :=
  ⟨fun h => ⟨_, write_eq_ok h⟩, fun h => write_eq_error (Nat.le_of_not_lt h)⟩

theorem lt_of_write {n : Int} {s : Text} (h : write n = .ok s) :
    n.natAbs < Nat.pow 10 longest := by
  apply Nat.lt_of_not_le
  intro hlong
  rw [write_eq_error hlong] at h
  cases h

end SlotText.Numeral
