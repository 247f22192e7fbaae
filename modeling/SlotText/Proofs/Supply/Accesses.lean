import SlotText.Proofs.References
import SlotText.Proofs.Numeral.Decimal

/-!
# Accesses to a supply

The values of a supply are asked for by index or in order, in any sequence and whatever fails on the
way. Only a value that is handed out in order moves the position, by one, so the position counts
those values and never passes the last slot. A failure changes nothing: once the next slot cannot be
resolved it never can, and all that is handed out in order has been handed out.

A slot that there is fails to resolve with a fault of its references, or with what showing the
target of a reference fails with. An index that no slot has is refused for lack of a value, unless
it is negative or too long to be written out.
-/
namespace SlotText.Supply

inductive Access where
  | resolve (i : Int)
  | next
  deriving DecidableEq, Repr

/-- The index that an access asks for. -/
def Access.index (s : Supply) : Access → Int
  | resolve i => i
  | next => s.position

/-- The value that an access gives, and the supply after it. -/
def perform (s : Supply) : Access → Outcome Value × Supply
  | .resolve i => (s.resolve i, s)
  | .next => match s.next with
    | .ok ((_, v), s) => (.ok v, s)
    | .error e => (.error e, s)

def step (s : Supply) (a : Access) : Supply := (s.perform a).2

def after (s : Supply) (accesses : List Access) : Supply := accesses.foldl step s

/-- The slots that are handed out in order, each with its value. -/
def handedOut (s : Supply) : List Access → List (Nat × Value)
  | [] => []
  | .resolve _ :: accesses => s.handedOut accesses
  | .next :: accesses => match s.next with
    | .ok (slot, s) => slot :: s.handedOut accesses
    | .error _ => s.handedOut accesses

/-- What resolving an index can fail with. -/
inductive Fails (values : List Value) (i : Int) : Failure → Prop
  | reference {k : Nat} {f : Fault} : i = k → k < values.length →
      .invalidReference ∈ f.category.lineage → Fails values i (.fault f)
  | shown {k : Nat} {target : Value} {e : Failure} : i = k → k < values.length →
      .ref target ∈ values → target.shown = .error e → Fails values i e
  | missing {f : Fault} : values.length ≤ i → i.natAbs < Nat.pow 10 Numeral.longest →
      f.category = .missingArgument → Fails values i (.fault f)
  | negative : i < 0 → i.natAbs < Nat.pow 10 Numeral.longest → Fails values i (.negativeSlot i)
  | long : i < 0 ∨ values.length ≤ i → Nat.pow 10 Numeral.longest ≤ i.natAbs →
      Fails values i .numeralTooLong

variable {s : Supply} {values : List Value} {e : Failure}

/-- A slot that there is fails by its references. -/
theorem fails_of_slot {k : Nat} (hk : k < values.length) (he : resolveIn values k = .error e) :
    Fails values k e := by
  obtain ⟨path, ending, hends⟩ := exists_ends hk
  rw [hends.resolveIn_eq hk] at he
  cases hends with
  | value _ _ _ _ => cases he
  | invalid _ _ hv _ =>
      rename_i target _ _ _
      cases hs : target.shown with
      | error e' =>
          rw [Ending.outcome, hs] at he
          cases he
          exact .shown rfl hk (List.mem_of_getElem? hv) hs
      | ok shown =>
          obtain ⟨d, hd, hcode⟩ := outcome_invalid values.length k path hs
          cases he.symm.trans hd
          have hlineage : .invalidReference ∈ Code.invalidReference.category.lineage := by decide
          exact .reference rfl hk (by rwa [Fault.ofDiagnostic, hcode])
  | closing _ _ _ _ =>
      rename_i t _ _ _ _
      obtain ⟨d, hd, hcode, -⟩ := outcome_closing values.length k path t
      cases he.symm.trans hd
      have hlineage : .invalidReference ∈ (if t = k then Code.selfReference
          else Code.referenceCycle).category.lineage := by
        split <;> decide
      exact .reference rfl hk (by rwa [Fault.ofDiagnostic, hcode])

/-- An index that no slot has is refused, for one reason or another. -/
theorem exists_of_no_slot {i : Int} (hi : i < 0 ∨ values.length ≤ i) :
    ∃ e, resolveIn values i = .error e ∧ Fails values i e := by
  have htarget : target? values (.int i) = none := by
    refine target?_eq_none_iff.mpr fun k hk h => ?_
    injection h with h
    omega
  rw [resolveIn, htarget]
  by_cases hlong : Nat.pow 10 Numeral.longest ≤ i.natAbs
  · simp only [Diagnostic.missingArgument, Index.write, Numeral.write_eq_error hlong]
    exact ⟨_, rfl, .long hi hlong⟩
  · have hshort := Nat.lt_of_not_le hlong
    have hwrite := Numeral.write_eq_ok hshort
    cases i with
    | negSucc n =>
        simp only [Diagnostic.missingArgument, Index.write, Index.toInt, Diagnostic.located,
          Diagnostic.place, hwrite]
        exact ⟨_, rfl, .negative (Int.negSucc_lt_zero n) hshort⟩
    | ofNat n =>
        have hle := hi.resolve_left (Int.not_lt.mpr (Int.natCast_nonneg n))
        simp only [Diagnostic.missingArgument, Index.write, hwrite]
        exact ⟨_, rfl, .missing hle hshort rfl⟩

theorem fails_of_resolveIn {i : Int} (he : resolveIn values i = .error e) : Fails values i e := by
  by_cases hi : i < 0 ∨ values.length ≤ i
  · obtain ⟨e', he', hfails⟩ := exists_of_no_slot hi
    cases he.symm.trans he'
    exact hfails
  · obtain ⟨k, rfl⟩ := Int.eq_ofNat_of_zero_le (by omega : 0 ≤ i)
    exact fails_of_slot (by omega) he

theorem lt_of_resolveIn {k : Nat} {v : Value} (h : resolveIn values k = .ok v) :
    k < values.length := by
  by_contra hk
  have hle : (values.length : Int) ≤ k := by omega
  obtain ⟨e, he, -⟩ := exists_of_no_slot (.inr hle)
  cases h.symm.trans he

/-- With targets that can be shown, and an index that is neither negative nor too long, the failure
is a fault about references. It lacks a value if and only if no slot has the index. -/
theorem Fails.exists_fault {i : Int} (h : Fails values i e)
    (hshown : ∀ target, .ref target ∈ values → ∃ s, target.shown = .ok s) (hi : 0 ≤ i)
    (hshort : i.natAbs < Nat.pow 10 Numeral.longest) :
    ∃ f, e = .fault f ∧ .reference ∈ f.category.lineage ∧
      (f.category = .missingArgument ↔ values.length ≤ i) := by
  cases h with
  | @reference k f hik hk hf =>
      have hlineage : ∀ c : Category, .invalidReference ∈ c.lineage →
          .reference ∈ c.lineage ∧ c ≠ .missingArgument := by
        intro c
        cases c <;> decide
      obtain ⟨href, hne⟩ := hlineage _ hf
      exact ⟨f, rfl, href, fun hc => absurd hc hne, fun hle => absurd hle (by omega)⟩
  | shown _ _ hmem he =>
      obtain ⟨s, hs⟩ := hshown _ hmem
      cases hs.symm.trans he
  | @missing f hle _ hf =>
      refine ⟨f, rfl, ?_, fun _ => hle, fun _ => hf⟩
      rw [hf]
      decide
  | negative hneg _ => omega
  | long _ hlong => omega

/-- The next slot is handed out if it can be resolved; otherwise nothing happens. -/
theorem next_cases (s : Supply) :
    (∃ v, resolveIn s.values s.position = .ok v ∧
      s.next = .ok ((s.position, v), { s with position := s.position + 1 })) ∨
    ∃ e, resolveIn s.values s.position = .error e ∧ s.next = .error e := by
  have hnext : s.next = (resolveIn s.values s.position >>= fun v =>
      .ok ((s.position, v), { s with position := s.position + 1 })) := rfl
  rw [hnext]
  cases h : resolveIn s.values s.position with
  | ok v => exact .inl ⟨v, rfl, rfl⟩
  | error e => exact .inr ⟨e, rfl, rfl⟩

theorem step_next_of_ok {slot : Nat × Value} {s' : Supply} (h : s.next = .ok (slot, s')) :
    s.step .next = s' := by
  rw [step, perform, h]

theorem step_next_of_error (h : s.next = .error e) : s.step .next = s := by
  rw [step, perform, h]

/-- A failing access has failed to resolve the index that it asks for. -/
theorem fails_of_perform {a : Access} (h : (s.perform a).1 = .error e) :
    Fails s.values (a.index s) e := by
  cases a with
  | resolve i => exact fails_of_resolveIn h
  | next =>
      rcases next_cases s with ⟨v, -, hnext⟩ | ⟨e', he', hnext⟩
      · rw [perform, hnext] at h
        cases h
      · rw [perform, hnext] at h
        cases h
        exact fails_of_resolveIn he'

/-- The position moves on by the number of slots that are handed out. -/
theorem after_eq (s : Supply) (accesses : List Access) :
    s.after accesses = { s with position := s.position + (s.handedOut accesses).length } := by
  induction accesses generalizing s with
  | nil => rfl
  | cons a accesses ih =>
      have hlater : s.after (a :: accesses) = (s.step a).after accesses := rfl
      rw [hlater, ih]
      cases a with
      | resolve i => rfl
      | next =>
          rcases next_cases s with ⟨v, -, hnext⟩ | ⟨e, -, hnext⟩
          · rw [step_next_of_ok hnext]
            simp only [handedOut, hnext, List.length_cons, Nat.add_assoc, Nat.add_comm 1]
          · rw [step_next_of_error hnext]
            simp only [handedOut, hnext]

/-- Slots are handed out one after another, each with the value that it resolves to. -/
theorem getElem?_handedOut {accesses : List Access} {k : Nat} {slot : Nat × Value}
    (h : (s.handedOut accesses)[k]? = some slot) :
    slot.1 = s.position + k ∧ resolveIn s.values slot.1 = .ok slot.2 := by
  induction accesses generalizing s k with
  | nil => cases h
  | cons a accesses ih =>
      cases a with
      | resolve i => exact ih h
      | next =>
          rcases next_cases s with ⟨v, hv, hnext⟩ | ⟨e, -, hnext⟩
          · simp only [handedOut, hnext] at h
            cases k with
            | zero =>
                cases h
                exact ⟨rfl, hv⟩
            | succ k =>
                obtain ⟨hslot, hvalue⟩ := ih h
                exact ⟨by simp only [hslot]; omega, hvalue⟩
          · simp only [handedOut, hnext] at h
            exact ih h

theorem position_step_le (h : s.position ≤ s.values.length) (a : Access) :
    (s.step a).position ≤ (s.step a).values.length := by
  cases a with
  | resolve i => exact h
  | next =>
      rcases next_cases s with ⟨v, hv, hnext⟩ | ⟨e, -, hnext⟩
      · rw [step_next_of_ok hnext]
        exact lt_of_resolveIn hv
      · rw [step_next_of_error hnext]
        exact h

theorem position_after_le (h : s.position ≤ s.values.length) (accesses : List Access) :
    (s.after accesses).position ≤ (s.after accesses).values.length := by
  induction accesses generalizing s with
  | nil => exact h
  | cons a accesses ih => exact ih (position_step_le h a)

/-- A supply whose next slot cannot be resolved does not change any more. -/
theorem after_of_error (h : s.next = .error e) (accesses : List Access) :
    s.after accesses = s := by
  induction accesses with
  | nil => rfl
  | cons a accesses ih =>
      have hstep : s.step a = s := by
        cases a with
        | resolve i => rfl
        | next => exact step_next_of_error h
      have hlater : s.after (a :: accesses) = (s.step a).after accesses := rfl
      rw [hlater, hstep, ih]

/-- After any accesses to a new supply, the position is the number of slots handed out in order, and
at most the number of values; the slots handed out are the first ones, in order, each with the value
that it resolves to. Resolving an index does not move the position, and a next slot that fails goes
on to fail in the same way. Every failure is one of the kinds in `Fails`. With targets that can be
shown, an index that is neither negative nor too long fails with a fault about references, and for
lack of a value if and only if no slot has it. -/
theorem position_after (values : List Value) (accesses : List Access) :
    let s := Supply.after { values } accesses
    let slots := Supply.handedOut { values } accesses
    (s = { values, position := slots.length } ∧ slots.length ≤ values.length) ∧
    (∀ i, s.step (.resolve i) = s) ∧
    (∀ (k : Nat) slot, slots[k]? = some slot → slot.1 = k ∧ resolveIn values k = .ok slot.2) ∧
    (∀ e, s.next = .error e → ∀ later, s.after later = s ∧ (s.after later).next = .error e) ∧
    ∀ a e, (s.perform a).1 = .error e → Fails values (a.index s) e ∧
      ((∀ target, .ref target ∈ values → ∃ s, target.shown = .ok s) →
        0 ≤ a.index s → (a.index s).natAbs < Nat.pow 10 Numeral.longest →
        ∃ f, e = .fault f ∧ .reference ∈ f.category.lineage ∧
          (f.category = .missingArgument ↔ values.length ≤ a.index s)) := by
  intro s slots
  have hafter : s = { values, position := slots.length } := by
    rw [show s = _ from after_eq { values } accesses, Nat.zero_add]
  have hvalues : s.values = values := by rw [hafter]
  have hposition : slots.length ≤ values.length := by
    have hle := position_after_le (s := { values }) (Nat.zero_le _) accesses
    rwa [show Supply.after { values } accesses = _ from hafter] at hle
  refine ⟨⟨hafter, hposition⟩, fun i => rfl, ?_, ?_, ?_⟩
  · intro k slot hslot
    obtain ⟨hindex, hvalue⟩ := getElem?_handedOut hslot
    rw [Nat.zero_add] at hindex
    exact ⟨hindex, hindex ▸ hvalue⟩
  · intro e he later
    rw [after_of_error he later]
    exact ⟨rfl, he⟩
  · intro a e he
    have hfails : Fails values (a.index s) e := hvalues ▸ fails_of_perform he
    exact ⟨hfails, fun hshown hi hshort => hfails.exists_fault hshown hi hshort⟩

/-- A reference to no slot stops what is handed out in order. -/
theorem position_after_failures :
    let values : List Value := [.text ['a'], .ref (.int 0), .ref (.int 7)]
    let s := Supply.after { values } [.next, .resolve 2, .next, .next]
    s.position = 2 ∧ ∃ f, (s.perform .next).1 = .error (.fault f) ∧
      .reference ∈ f.category.lineage ∧ f.category ≠ .missingArgument := by
  intro values s
  have hshown : ∀ target, .ref target ∈ values → ∃ s, target.shown = .ok s := by
    intro target h
    simp only [values, List.mem_cons, List.not_mem_nil, or_false, reduceCtorEq, false_or,
      Value.ref.injEq] at h
    rcases h with rfl | rfl
    · exact ⟨['0'], rfl⟩
    · exact ⟨['7'], rfl⟩
  have hshort : 2 < Nat.pow 10 Numeral.longest :=
    Nat.lt_of_lt_of_le (by decide : 2 < Nat.pow 10 1) (Numeral.pow_ten_le (by decide))
  obtain ⟨-, -, -, -, hfails⟩ := position_after values [.next, .resolve 2, .next, .next]
  have hs : s = { values, position := 2 } := rfl
  rw [show Supply.after { values } _ = _ from hs] at hfails
  rw [hs]
  obtain ⟨e, he⟩ : ∃ e, (Supply.perform { values, position := 2 } .next).1 = .error e := ⟨_, rfl⟩
  obtain ⟨f, rfl, href, hmissing⟩ := (hfails .next e he).2 hshown (Int.natCast_nonneg 2) hshort
  refine ⟨rfl, f, he, href, fun hf => ?_⟩
  have hle : (values.length : Int) ≤ 2 := hmissing.mp hf
  exact absurd hle (by decide)

/-- A negative index is refused before there is a diagnostic, so without a fault. -/
theorem perform_negative_index :
    (Supply.perform { values := [.text ['a']] } (.resolve (-1))).1 = .error (.negativeSlot (-1)) ∧
      ¬∃ f, (Supply.perform { values := [.text ['a']] } (.resolve (-1))).1 = .error (.fault f) := by
  refine ⟨rfl, fun h => ?_⟩
  obtain ⟨f, hf⟩ := h
  cases hf

end SlotText.Supply
