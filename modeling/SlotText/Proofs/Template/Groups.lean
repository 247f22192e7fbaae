import SlotText.Proofs.Template.Slots

/-!
# The literals of a placement

Reading a placement looks at the literal behind its slot and at those behind the slots it absorbs,
and at nothing else: neither at the literals further on, nor at the number of the slot or of all
slots. So the literals of a template fall into groups, one for each placement, and a group keeps
its meaning wherever it stands. Templates can be taken apart and put together at the ends of
groups.
-/
namespace SlotText

namespace Grammar

/-- More literals behind what lies ahead. -/
def Ahead.onto (a : Ahead) (left : List Text) : Ahead := ⟨a.text, a.literals ++ left⟩

variable {a b : Ahead} {ds part literal tail : Text} {m : Amount} {following left : List Text}
variable {g : Parts} {spec : Specifier}

theorem Measured.onto (h : Measured a ds m b) (left : List Text) :
    Measured (a.onto left) ds m (b.onto left) := by
  cases h with
  | digits hne hds hrest => exact .digits hne hds hrest
  | zero hc => exact .zero hc
  | deferred literal literals => exact .deferred literal (literals ++ left)

theorem Measured.exists_onto (h : Measured a ds m (b.onto left)) :
    ∃ a', a = a'.onto left ∧ Measured a' ds m b := by
  generalize hb : b.onto left = b' at h
  obtain ⟨text, literals⟩ := b
  cases h with
  | digits hne hds hrest =>
      cases hb
      exact ⟨⟨_, literals⟩, rfl, .digits hne hds hrest⟩
  | zero hc =>
      cases hb
      exact ⟨⟨_, literals⟩, rfl, .zero hc⟩
  | deferred literal _ =>
      cases hb
      exact ⟨⟨[], text :: literals⟩, rfl, .deferred text literals⟩

theorem Pointed.onto (h : Pointed a part m b) (left : List Text) :
    Pointed (a.onto left) part m (b.onto left) := by
  cases h with
  | absent hn => exact .absent hn
  | point hm => exact .point (hm.onto left)

theorem Pointed.exists_onto (h : Pointed a part m (b.onto left)) :
    ∃ a', a = a'.onto left ∧ Pointed a' part m b := by
  generalize hb : b.onto left = b' at h
  cases h with
  | absent hn =>
      cases hb
      exact ⟨b, rfl, .absent hn⟩
  | point hm =>
      subst hb
      obtain ⟨⟨rest, literals⟩, ha, hm'⟩ := hm.exists_onto
      cases ha
      exact ⟨⟨'.' :: rest, literals⟩, rfl, .point hm'⟩

theorem Specified.onto (h : Specified literal following g spec tail []) (left : List Text) :
    Specified literal (following ++ left) g spec tail left := by
  obtain ⟨opening, aligned, signed, pretty, zeroPad, width, precision, ending, rest, lettered,
    closed⟩ := h
  refine .intro opening aligned signed pretty zeroPad (width.onto left) (precision.onto left)
    ending ?_ lettered closed
  rw [Ahead.onto, rest, List.nil_append]

theorem Specified.exists_taken (h : Specified literal following g spec tail left) :
    ∃ taken, following = taken ++ left ∧ Specified literal taken g spec tail [] := by
  obtain ⟨opening, aligned, signed, pretty, zeroPad, width, precision, ending, rest, lettered,
    closed⟩ := h
  rename_i r a b
  subst rest
  obtain ⟨a', rfl, hpointed⟩ := Pointed.exists_onto (b := ⟨b.text, []⟩) precision
  obtain ⟨⟨text, taken⟩, hr, hmeasured⟩ := width.exists_onto
  cases hr
  exact ⟨taken, rfl, .intro opening aligned signed pretty zeroPad hmeasured hpointed ending rfl
    lettered closed⟩

end Grammar

namespace Placement
open Grammar Reading

/-- The runs of digits in a specifier that is read are not too long. -/
theorem Reading.length_le_of_placement {r : Reading} {p : Placement} {g : Parts}
    {spec : Specifier} {tail : Text} {left : List Text} (h : r.placement = .ok p)
    (hs : Specified (':' :: r.rest) r.following g spec tail left) :
    g.width.length ≤ Numeral.longest ∧ g.precision.tail.length ≤ Numeral.longest := by
  obtain ⟨opening, aligned, signed, pretty, zeroPad, width, precision, -, -, -, -⟩ := hs
  rename_i s a b
  have hrest : r.rest = g.alignment ++ (g.sign ++ (g.pretty ++ (g.zeroPad ++ s))) := by
    simpa [Parts.flags] using opening
  simp only [placement, hrest, takeAlignment_of_aligned aligned, takeSign_of_signed signed,
    takeFlag_of_flagged pretty, takeFlag_of_flagged zeroPad] at h
  obtain ⟨⟨w, r₁⟩, hw, h⟩ := Outcome.bind_eq_ok.mp h
  obtain ⟨⟨q, r₂⟩, hq, -⟩ := Outcome.bind_eq_ok.mp h
  have hlength := length_le_of_takeAmount hw width
  obtain ⟨r₁', hw', ha⟩ := takeAmount_of_measured (r := { r with rest := s }) width hlength
  cases hw.symm.trans hw'
  subst ha
  exact ⟨hlength, length_le_of_takePrecision hq precision⟩

/-- The literals from which a placement is read, and no others. -/
inductive Occupies : Placement → List Text → Prop
  | plain (slot : Int) {literal : Text} : ¬literal.Begins (· = ':') →
      Occupies { slot, tail := literal } [literal]
  | escaped (slot : Int) (rest : Text) :
      Occupies { slot, tail := ':' :: rest, escaped := true } [':' :: ':' :: rest]
  | specified (slot : Int) {rest tail : Text} {taken : List Text} {g : Parts} {spec : Specifier} :
      ¬rest.Begins (· = ':') → Specified (':' :: rest) taken g spec tail [] →
      g.width.length ≤ Numeral.longest → g.precision.tail.length ≤ Numeral.longest →
      Occupies (.ofSpecifier slot spec tail) ((':' :: rest) :: taken)

variable {p : Placement} {group : List Text}

theorem Occupies.length_eq (h : p.Occupies group) : group.length = p.consumed := by
  cases h with
  | plain slot hc => rfl
  | escaped slot rest => rfl
  | specified slot hc hs hw hp =>
      obtain ⟨taken, hf, hn, -⟩ := hs.fused
      rw [List.append_nil] at hf
      rw [consumed, absorbed_ofSpecifier, List.length_cons, hf, hn, Nat.add_comm]

theorem Occupies.ne_nil (h : p.Occupies group) : group ≠ [] := by
  cases h with
  | plain slot hc => exact List.cons_ne_nil _ _
  | escaped slot rest => exact List.cons_ne_nil _ _
  | specified slot hc hs hw hp => exact List.cons_ne_nil _ _

theorem Occupies.consecutive (h : p.Occupies group) : p.Consecutive := by
  cases h with
  | plain slot hc => exact ⟨by simp, by simp⟩
  | escaped slot rest => exact ⟨by simp, by simp⟩
  | specified slot hc hs hw hp => exact consecutive_ofSpecifier slot _ _

theorem Occupies.shift (h : p.Occupies group) (k : Int) : (p.shift k).Occupies group := by
  cases h with
  | plain slot hc => exact .plain (slot + k) hc
  | escaped slot rest => exact .escaped (slot + k) rest
  | specified slot hc hs hw hp =>
      rw [shift_ofSpecifier]
      exact .specified (slot + k) hc hs hw hp

/-- Whether a literal is read depends on the group that it begins, and so does what is read. -/
theorem read_eq_ok_iff {slot count : Int} {literal : Text} {following : List Text} :
    read slot count literal following = .ok p ↔
      p.slot = slot ∧ ∃ taken left, following = taken ++ left ∧ p.Occupies (literal :: taken) := by
  constructor
  · intro h
    rcases read_cases h with ⟨hc, rfl⟩ | ⟨rest, rfl, rfl⟩ |
      ⟨rest, g, spec, tail, left, rfl, hc, hs, rfl⟩
    · exact ⟨rfl, [], following, rfl, .plain slot hc⟩
    · exact ⟨rfl, [], following, rfl, .escaped slot rest⟩
    · rw [read_of_colon hc] at h
      obtain ⟨hw, hp⟩ := length_le_of_placement h hs
      obtain ⟨taken, hf, hs⟩ := hs.exists_taken
      exact ⟨rfl, taken, left, hf, .specified slot hc hs hw hp⟩
  · intro h
    obtain ⟨rfl, taken, left, rfl, h⟩ := h
    cases h with
    | plain slot hc => exact read_of_plain hc
    | escaped slot rest => rfl
    | specified slot hc hs hw hp =>
        rw [read_of_colon hc]
        exact placement_of_specified rfl (hs.onto left) hw hp

end Placement

namespace Blueprint
open Placement

/-- The literals behind slot `n` and those that follow it, divided into the groups of some
placements. -/
inductive Divided : Nat → List Text → List Placement → Prop
  | nil (n : Nat) : Divided n [] []
  | cons {n : Nat} {p : Placement} {group literals : List Text} {ps : List Placement} :
      p.slot = n → p.Occupies group → Divided (n + group.length) literals ps →
      Divided n (group ++ literals) (p :: ps)

variable {n : Nat} {literals : List Text} {ps qs : List Placement}

theorem Divided.append {literals' : List Text} (h : Divided n literals ps)
    (h' : Divided (n + literals.length) literals' qs) :
    Divided n (literals ++ literals') (ps ++ qs) := by
  induction h with
  | nil n => exact h'
  | cons hn hp _ ih =>
      rw [List.append_assoc]
      refine .cons hn hp (ih ?_)
      rwa [Nat.add_assoc, ← List.length_append]

theorem Divided.exists_of_append (h : Divided n literals (ps ++ qs)) :
    ∃ l₁ l₂, literals = l₁ ++ l₂ ∧ Divided n l₁ ps ∧ Divided (n + l₁.length) l₂ qs := by
  induction ps generalizing n literals with
  | nil => exact ⟨[], literals, rfl, .nil n, h⟩
  | cons p ps ih =>
      cases h with
      | cons hn hp h =>
          obtain ⟨l₁, l₂, rfl, h₁, h₂⟩ := ih h
          refine ⟨_ ++ l₁, l₂, (List.append_assoc _ _ _).symm, .cons hn hp h₁, ?_⟩
          rwa [List.length_append, ← Nat.add_assoc]

/-- Groups can stand behind any other slot. -/
theorem Divided.shift (h : Divided n literals ps) (m : Nat) :
    Divided m literals (ps.map (shift (m - n))) := by
  induction h generalizing m with
  | nil n => exact .nil m
  | @cons n p group literals ps hn hp _ ih =>
      refine .cons ?_ (hp.shift _) ?_
      · change p.slot + (m - n) = m
        omega
      · have hrest := ih (m + group.length)
        have hk : ((m + group.length : Nat) : Int) - (n + group.length : Nat) = m - n := by omega
        rwa [hk] at hrest

theorem Divided.inOrder (h : Divided n literals ps) : InOrder n ps (n + literals.length) := by
  induction h with
  | nil n => exact .nil n
  | cons hn hp _ ih =>
      refine .cons hn hp.consecutive ?_
      rwa [← hp.length_eq, List.length_append, ← Nat.add_assoc]

theorem Divided.exists_of_mem_slots (h : Divided n literals ps) {p : Placement} (hp : p ∈ ps)
    {i : Int} (hi : i ∈ p.slots) : ∃ k < literals.length, i = (n + k : Nat) := by
  have hmem := List.mem_flatMap.mpr ⟨p, hp, hi⟩
  rw [h.inOrder.slots_eq] at hmem
  obtain ⟨j, hj, rfl⟩ := List.mem_map.mp hmem
  obtain ⟨k, hk, rfl⟩ := List.mem_range'.mp hj
  exact ⟨k, by omega, by rw [Nat.one_mul]; rfl⟩

theorem placementsFrom_eq_drop (count : Int) (slot skip : Nat) (literals : List Text) :
    placementsFrom count slot skip literals =
      placementsFrom count (slot + skip) 0 (literals.drop skip) := by
  induction literals generalizing slot skip with
  | nil => rw [List.drop_nil, placementsFrom, placementsFrom]
  | cons literal literals ih =>
      cases skip with
      | zero => rfl
      | succ skip => rw [placementsFrom, ih, List.drop_succ_cons, Nat.succ_add_eq_add_succ]

theorem divided_of_placementsFrom {count : Int} {slot skip : Nat}
    (h : placementsFrom count slot skip literals = .ok ps) (hskip : skip ≤ literals.length) :
    Divided (slot + skip) (literals.drop skip) ps := by
  induction literals generalizing slot skip ps with
  | nil =>
      rw [placementsFrom] at h
      cases h
      rw [List.drop_nil]
      exact .nil _
  | cons literal following ih =>
      cases skip with
      | succ skip =>
          rw [← Nat.succ_add_eq_add_succ]
          exact ih h (Nat.le_of_succ_le_succ hskip)
      | zero =>
          rw [placementsFrom] at h
          obtain ⟨p, hp, h⟩ := Outcome.bind_eq_ok.mp h
          obtain ⟨ps', hps, h⟩ := Outcome.bind_eq_ok.mp h
          cases h
          obtain ⟨hslot, taken, left, rfl, hoccupies⟩ := read_eq_ok_iff.mp hp
          have hlength := hoccupies.length_eq
          rw [consumed, List.length_cons, Nat.add_comm] at hlength
          have htaken : taken.length = p.absorbed := Nat.add_left_cancel hlength
          have hrest := ih hps (by rw [List.length_append, htaken]; exact Nat.le_add_right _ _)
          rw [← htaken, List.drop_left] at hrest
          have hdivided : Divided (slot + 0 + (literal :: taken).length) left ps' := by
            rwa [Nat.add_zero, List.length_cons, Nat.add_comm taken.length, ← Nat.add_assoc]
          have hall := Divided.cons hslot hoccupies hdivided
          exact hall

theorem placementsFrom_of_divided (count : Int) (h : Divided n literals ps) :
    placementsFrom count n 0 literals = .ok ps := by
  induction h with
  | nil n => rfl
  | @cons n p group literals ps hn hp _ ih =>
      have hlength := hp.length_eq
      cases group with
      | nil => exact absurd rfl hp.ne_nil
      | cons literal taken =>
          rw [consumed, List.length_cons, Nat.add_comm] at hlength
          have htaken : taken.length = p.absorbed := Nat.add_left_cancel hlength
          have hread : read n count literal (taken ++ literals) = .ok p :=
            read_eq_ok_iff.mpr ⟨hn, taken, literals, rfl, hp⟩
          have hslot : n + 1 + p.absorbed = n + (literal :: taken).length := by
            rw [List.length_cons, htaken]
            omega
          rw [List.cons_append, placementsFrom, hread, Outcome.ok_bind, placementsFrom_eq_drop,
            ← htaken, List.drop_left, htaken, hslot, ih]
          rfl

/-- A blueprint is a division of the literals behind the head. -/
theorem ofSegments_eq_ok_iff {head : Text} {b : Blueprint} :
    ofSegments (head :: literals) = .ok b ↔
      ∃ ps, Divided 0 literals ps ∧ b = ⟨head, ps, literals.length⟩ := by
  rw [ofSegments]
  constructor
  · intro h
    obtain ⟨ps, hps, h⟩ := Outcome.bind_eq_ok.mp h
    cases h
    exact ⟨ps, divided_of_placementsFrom hps (Nat.zero_le _), rfl⟩
  · intro h
    obtain ⟨ps, hps, rfl⟩ := h
    rw [placementsFrom_of_divided _ hps]
    rfl

theorem exists_divided {segments : List Text} {b : Blueprint} (h : ofSegments segments = .ok b) :
    ∃ literals, segments = b.head :: literals ∧ Divided 0 literals b.placements ∧
      b.slotCount = literals.length := by
  cases segments with
  | nil => cases h
  | cons head literals =>
      obtain ⟨ps, hps, rfl⟩ := ofSegments_eq_ok_iff.mp h
      exact ⟨literals, rfl, hps, rfl⟩

end Blueprint

end SlotText
