import SlotText.Text.Basic

/-!
# Positional numerals

Digits of a natural number in any base, most significant first, and the value of a list of
digits. The numeral of zero is the single digit zero and no other numeral begins with one.
Digits are written `0` to `9` and `a` to `z`, which serves bases up to 36.

Large numbers are divided by a power of the base first, so that most divisions are by a single
digit of a small number. `digits_eq` says that this makes no difference: the digits of a number
are those of its quotient by the base followed by the remainder.
-/
namespace SlotText.Numeral

/-- Digits of `n` in front of `tail`; every round divides `n`, so `fuel` above it suffices. -/
def digitsOnto (base : Nat) : Nat → Nat → List Nat → List Nat
  | 0, _, tail => tail
  | fuel + 1, n, tail =>
    if n / base = 0 then n % base :: tail
    else digitsOnto base fuel (n / base) (n % base :: tail)

/-- The last `count` digits of `n`, zeros included, in front of `tail`. -/
def lastDigitsOnto (base : Nat) : Nat → Nat → List Nat → List Nat
  | 0, _, tail => tail
  | count + 1, n, tail => lastDigitsOnto base count (n / base) (n % base :: tail)

/-- The number of digits that are split off at once. -/
abbrev blockLength : Nat := 64

/-- Digits of `n` in front of `tail`, a block at a time as long as there is a whole one. -/
def blocksOnto (base block : Nat) : Nat → Nat → List Nat → List Nat
  | 0, _, tail => tail
  | fuel + 1, n, tail =>
    if n / block = 0 then digitsOnto base (n + 1) n tail
    else blocksOnto base block fuel (n / block) (lastDigitsOnto base blockLength (n % block) tail)

/-- The digits of `n` in `base`, most significant first. -/
def digits (base n : Nat) : List Nat :=
  blocksOnto base (Nat.pow base blockLength) (n + 1) n []

/-- The number that a list of digits stands for. -/
def value (base : Nat) (ds : List Nat) : Nat :=
  ds.foldl (fun v d => base * v + d) 0

/-- The number of distinct digit signs. -/
def signs : Nat := 36

def sign (d : Nat) : Char :=
  if d < 10 then Char.ofNat (48 + d) else Char.ofNat (87 + d)

def isDigit (c : Char) : Bool := '0' ≤ c ∧ c ≤ '9'

/-- The number a run of decimal digits stands for. -/
def ofText (s : Text) : Nat :=
  value 10 (s.map fun c => c.toNat - 48)

def ofNat (n : Nat) : Text :=
  (digits 10 n).map sign

def ofInt : Int → Text
  | .ofNat n => ofNat n
  | .negSucc n => '-' :: ofNat (n + 1)

/-- Without the zeros at the end. -/
def trimZeros (ds : List Nat) : List Nat :=
  (ds.reverse.dropWhile (· == 0)).reverse

theorem quotient_lt {base n : Nat} (hb : 2 ≤ base) (hq : ¬n / base = 0) : n / base < n := by
  rcases Nat.eq_zero_or_pos n with h | h
  · simp [h] at hq
  · exact Nat.div_lt_self h hb

theorem digitsOnto_eq (base : Nat) (hb : 2 ≤ base) (n fuel : Nat) (tail : List Nat)
    (h : n < fuel) : digitsOnto base fuel n tail = digitsOnto base (n + 1) n [] ++ tail := by
  induction n using Nat.strongRecOn generalizing fuel tail with
  | _ n ih =>
    cases fuel with
    | zero => omega
    | succ fuel =>
      simp only [digitsOnto]
      split
      · rfl
      · next hq =>
        have hlt := quotient_lt hb hq
        rw [ih (n / base) hlt fuel _ (by omega), ih (n / base) hlt n [n % base] (by omega),
          List.append_assoc]
        rfl

theorem digitsOnto_quotient (base : Nat) (hb : 2 ≤ base) (n : Nat) :
    digitsOnto base (n + 1) n [] =
      (if n / base = 0 then [] else digitsOnto base (n / base + 1) (n / base) []) ++
        [n % base] := by
  rw [digitsOnto]
  split
  · rfl
  · next hq =>
    have hlt := quotient_lt hb hq
    rw [digitsOnto_eq base hb (n / base) n _ hlt]

theorem lastDigitsOnto_mod (base count n : Nat) (tail : List Nat) :
    lastDigitsOnto base count (n % Nat.pow base count) tail = lastDigitsOnto base count n tail := by
  induction count generalizing n tail with
  | zero => rfl
  | succ count ih =>
    have hp : Nat.pow base (count + 1) = base * Nat.pow base count := Nat.pow_succ'
    rw [lastDigitsOnto, lastDigitsOnto, hp, Nat.mod_mul_right_mod, Nat.mod_mul_right_div_self, ih]

/-- Splitting the last digits off a number with more digits than that. -/
theorem digitsOnto_split (base : Nat) (hb : 2 ≤ base) (count n : Nat) (tail : List Nat)
    (h : n / Nat.pow base count ≠ 0) :
    digitsOnto base (n + 1) n [] ++ tail =
      digitsOnto base (n / Nat.pow base count + 1) (n / Nat.pow base count) [] ++
        lastDigitsOnto base count n tail := by
  induction count generalizing n tail with
  | zero =>
    have hp : Nat.pow base 0 = 1 := rfl
    rw [hp, Nat.div_one, lastDigitsOnto]
  | succ count ih =>
    have hp : n / Nat.pow base (count + 1) = n / base / Nat.pow base count := by
      rw [show Nat.pow base (count + 1) = base * Nat.pow base count from Nat.pow_succ',
        Nat.div_div_eq_div_mul]
    rw [hp] at h ⊢
    have hq : ¬n / base = 0 := fun hq => h (by rw [hq, Nat.zero_div])
    rw [digitsOnto_quotient base hb n, if_neg hq, List.append_assoc, lastDigitsOnto]
    exact ih (n / base) (n % base :: tail) h

theorem blocksOnto_eq (base : Nat) (hb : 2 ≤ base) (n fuel : Nat) (tail : List Nat)
    (h : n < fuel) :
    blocksOnto base (Nat.pow base blockLength) fuel n tail =
      digitsOnto base (n + 1) n [] ++ tail := by
  induction n using Nat.strongRecOn generalizing fuel tail with
  | _ n ih =>
    cases fuel with
    | zero => omega
    | succ fuel =>
      rw [blocksOnto]
      split
      · exact digitsOnto_eq base hb n (n + 1) tail (Nat.lt_succ_self n)
      · next hq =>
        have hlt : n / Nat.pow base blockLength < n :=
          quotient_lt (Nat.le_trans hb (Nat.le_pow (by decide))) hq
        rw [ih _ hlt fuel _ (by omega), lastDigitsOnto_mod, ← digitsOnto_split base hb _ n tail hq]

theorem digits_eq_digitsOnto (base : Nat) (hb : 2 ≤ base) (n : Nat) :
    digits base n = digitsOnto base (n + 1) n [] := by
  rw [digits, blocksOnto_eq base hb n (n + 1) [] (Nat.lt_succ_self n), List.append_nil]

/-- The digits of a number are those of its quotient followed by its remainder. -/
theorem digits_eq (base : Nat) (hb : 2 ≤ base) (n : Nat) :
    digits base n = (if n / base = 0 then [] else digits base (n / base)) ++ [n % base] := by
  rw [digits_eq_digitsOnto base hb, digits_eq_digitsOnto base hb, digitsOnto_quotient base hb]

theorem value_append_singleton (base : Nat) (ds : List Nat) (d : Nat) :
    value base (ds ++ [d]) = base * value base ds + d := by
  simp [value, List.foldl_append]

theorem value_digits (base : Nat) (hb : 2 ≤ base) (n : Nat) : value base (digits base n) = n := by
  induction n using Nat.strongRecOn with
  | _ n ih =>
    rw [digits_eq base hb, value_append_singleton]
    split
    · next hq =>
      have := Nat.div_add_mod n base
      simp only [hq, Nat.mul_zero, Nat.zero_add] at this
      simp [value, this]
    · next hq =>
      have hlt := quotient_lt hb hq
      rw [ih _ hlt, Nat.div_add_mod]

theorem digits_ne_nil (base : Nat) (hb : 2 ≤ base) (n : Nat) : digits base n ≠ [] := by
  rw [digits_eq base hb]
  simp

theorem lt_of_mem_digits {base : Nat} (hb : 2 ≤ base) {n d : Nat} (h : d ∈ digits base n) :
    d < base := by
  induction n using Nat.strongRecOn with
  | _ n ih =>
    rw [digits_eq base hb, List.mem_append, List.mem_singleton] at h
    rcases h with h | h
    · split at h
      · simp at h
      · next hq =>
        exact ih _ (quotient_lt hb hq) h
    · rw [h]
      exact Nat.mod_lt _ (by omega)

theorem lt_pow_length_digits (base : Nat) (hb : 2 ≤ base) (n : Nat) :
    n < Nat.pow base (digits base n).length := by
  induction n using Nat.strongRecOn with
  | _ n ih =>
    rw [digits_eq base hb, List.length_append, List.length_singleton]
    have hm := Nat.mod_lt n (show base > 0 by omega)
    have hd := Nat.div_add_mod n base
    split
    · next hq =>
      rw [hq, Nat.mul_zero, Nat.zero_add] at hd
      rw [List.length_nil, Nat.zero_add, show Nat.pow base 1 = base from Nat.pow_one base, ← hd]
      exact hm
    · next hq =>
      have hlt := ih _ (quotient_lt hb hq)
      rw [show Nat.pow base ((digits base (n / base)).length + 1) =
        base * Nat.pow base (digits base (n / base)).length from Nat.pow_succ']
      calc n = base * (n / base) + n % base := hd.symm
        _ < base * (n / base) + base := Nat.add_lt_add_left hm _
        _ = base * (n / base + 1) := (Nat.mul_succ ..).symm
        _ ≤ base * Nat.pow base (digits base (n / base)).length := Nat.mul_le_mul_left _ hlt

end SlotText.Numeral
