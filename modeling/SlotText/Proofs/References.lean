import SlotText.Supply
import SlotText.Proofs.Outcome
import Mathlib.Data.List.Chain
import Mathlib.Data.List.Nodup

/-!
# Chains of references

The slots of a list of values form a graph with at most one edge from each slot: a slot refers to
another one if it holds a reference to the index of that one. Resolving a slot walks along the
edges. A walk without a repetition has no more slots than there are values, so it can be continued
until it ends in one of three ways: at a value that is no reference, at a reference to something
that is no slot, or at a slot that it has visited. Which of them happens decides the outcome.
-/
namespace SlotText

/-- The outcome is a fault of just this category. -/
def Outcome.Raises {α : Type} (o : Outcome α) (c : Category) : Prop :=
  ∃ f, o = .error (.fault f) ∧ f.category = c

namespace Supply

/-- Slot `s` holds a reference to slot `t`. -/
def Refers (values : List Value) (s t : Nat) : Prop :=
  values[s]? = some (.ref (.int t)) ∧ t < values.length

/-- Slots visited one after another from slot `i` on, and the last of them. -/
inductive Walk (values : List Value) (i : Nat) : List Nat → Nat → Prop
  | start : i < values.length → Walk values i [i] i
  | step {path : List Nat} {s t : Nat} :
      Walk values i path s → Refers values s t → Walk values i (path ++ [t]) t

/-- What a walk without a repetition can end with. -/
inductive Ending where
  | value (v : Value)
  | invalid (target : Value)
  | closing (slot : Nat)

inductive Ends (values : List Value) (i : Nat) (path : List Nat) : Ending → Prop
  | value {s : Nat} {v : Value} : Walk values i path s → path.Nodup → values[s]? = some v →
      (∀ target, v ≠ .ref target) → Ends values i path (.value v)
  | invalid {s : Nat} {target : Value} : Walk values i path s → path.Nodup →
      values[s]? = some (.ref target) → (∀ t : Nat, t < values.length → target ≠ .int t) →
      Ends values i path (.invalid target)
  | closing {s t : Nat} : Walk values i path s → path.Nodup → Refers values s t → t ∈ path →
      Ends values i path (.closing t)

/-- The outcome of resolving slot `i` of `n` after a walk that ends in some way. -/
def Ending.outcome (n i : Nat) (path : List Nat) : Ending → Outcome Value
  | .value v => .ok v
  | .invalid target =>
    Outcome.refuse (Diagnostic.invalidReference (.position i) target.shown (.position n))
  | .closing t =>
    let closed := ((path ++ [t]).map Int.ofNat).map Index.position
    if t = i then Outcome.refuse (Diagnostic.selfReference (.position i) closed)
    else Outcome.refuse (Diagnostic.referenceCycle (.position i) closed)

def Ending.category? (i : Nat) : Ending → Option Category
  | .value _ => none
  | .invalid _ => some .invalidReference
  | .closing t => some (if t = i then .selfReference else .referenceCycle)

variable {values : List Value} {i s t : Nat} {path : List Nat}

theorem Refers.unique {t' : Nat} (h : Refers values s t) (h' : Refers values s t') : t = t' := by
  have heq := h.1.symm.trans h'.1
  injection heq with heq
  injection heq with heq
  injection heq with heq
  omega

theorem Walk.head? (h : Walk values i path s) : path.head? = some i := by
  induction h with
  | start _ => rfl
  | step _ _ ih => rw [List.head?_append, ih, Option.some_or]

theorem Walk.getLast? (h : Walk values i path s) : path.getLast? = some s := by
  cases h with
  | start _ => rfl
  | step _ _ => exact List.getLast?_concat

theorem Walk.isChain (h : Walk values i path s) : path.IsChain (Refers values) := by
  induction h with
  | start _ => exact .singleton i
  | step hw hr ih =>
      refine ih.append (.singleton _) ?_
      intro x hx y hy
      rw [hw.getLast?] at hx
      cases hx
      cases hy
      exact hr

theorem Walk.origin_mem (h : Walk values i path s) : i ∈ path :=
  List.mem_of_mem_head? h.head?

theorem Walk.last_mem (h : Walk values i path s) : s ∈ path :=
  List.mem_of_mem_getLast? h.getLast?

theorem Walk.lt_length (h : Walk values i path s) : ∀ x ∈ path, x < values.length := by
  induction h with
  | start hi => simpa using hi
  | step _ hr ih =>
      intro x hx
      rcases List.mem_append.mp hx with hx | hx
      · exact ih x hx
      · rw [List.mem_singleton.mp hx]
        exact hr.2

theorem Walk.length_le (h : Walk values i path s) (hn : path.Nodup) :
    path.length ≤ values.length := by
  have hsub : path ⊆ List.range values.length := fun x hx => List.mem_range.mpr (h.lt_length x hx)
  simpa using hn.length_le_of_subset hsub

/-- A slot on a walk is the last one, or it refers to a slot on the walk. -/
theorem Walk.last_or_refers (h : Walk values i path s) :
    ∀ x ∈ path, x = s ∨ ∃ y ∈ path, Refers values x y := by
  induction h with
  | start _ => simp
  | step hw hr ih =>
      rename_i path s t
      intro x hx
      rcases List.mem_append.mp hx with hx | hx
      · rcases ih x hx with rfl | ⟨y, hy, hxy⟩
        · exact .inr ⟨t, by simp, hr⟩
        · exact .inr ⟨y, List.mem_append_left _ hy, hxy⟩
      · exact .inl (List.mem_singleton.mp hx)

theorem Walk.ends_or_continues (h : Walk values i path s) (hn : path.Nodup) :
    (∃ e, Ends values i path e) ∨ ∃ t, Refers values s t ∧ t ∉ path := by
  obtain ⟨v, hv⟩ : ∃ v, values[s]? = some v := by
    have hs := h.lt_length s h.last_mem
    exact ⟨values[s], List.getElem?_eq_getElem hs⟩
  by_cases href : ∃ target, v = .ref target
  · obtain ⟨target, rfl⟩ := href
    by_cases hslot : ∃ t : Nat, t < values.length ∧ target = .int t
    · obtain ⟨t, ht, rfl⟩ := hslot
      by_cases hmem : t ∈ path
      · exact .inl ⟨_, .closing h hn ⟨hv, ht⟩ hmem⟩
      · exact .inr ⟨t, ⟨hv, ht⟩, hmem⟩
    · exact .inl ⟨_, .invalid h hn hv fun t ht htarget => hslot ⟨t, ht, htarget⟩⟩
  · exact .inl ⟨_, .value h hn hv fun target htarget => href ⟨target, htarget⟩⟩

theorem ends_or_walk (hi : i < values.length) (k : Nat) :
    (∃ path e, Ends values i path e) ∨
      ∃ path s, Walk values i path s ∧ path.Nodup ∧ path.length = k + 1 := by
  induction k with
  | zero => exact .inr ⟨[i], i, .start hi, List.nodup_singleton i, rfl⟩
  | succ k ih =>
      rcases ih with hends | ⟨path, s, hw, hn, hlength⟩
      · exact .inl hends
      · rcases hw.ends_or_continues hn with ⟨e, he⟩ | ⟨t, hr, ht⟩
        · exact .inl ⟨path, e, he⟩
        · have hn' : (path ++ [t]).Nodup := by simpa using List.Nodup.concat ht hn
          exact .inr ⟨path ++ [t], t, hw.step hr, hn', by simp [hlength]⟩

theorem exists_ends (hi : i < values.length) : ∃ path e, Ends values i path e := by
  rcases ends_or_walk hi values.length with h | ⟨path, s, hw, hn, hlength⟩
  · exact h
  · have := hw.length_le hn
    omega

theorem target?_eq_some_iff {target v : Value} :
    target? values target = some (t, v) ↔ target = .int t ∧ values[t]? = some v := by
  constructor
  · intro h
    unfold target? at h
    split at h
    · split at h
      · cases h
      · next n hn =>
          obtain ⟨w, hw, heq⟩ := Option.map_eq_some_iff.mp h
          cases heq
          have hcast : ((n.toNat : Nat) : Int) = n := by omega
          exact ⟨by rw [hcast], hw⟩
    · cases h
  · intro h
    obtain ⟨rfl, hv⟩ := h
    have hn : ¬(t : Int) < 0 := by omega
    simp [target?, hn, hv]

theorem target?_eq_none_iff {target : Value} :
    target? values target = none ↔ ∀ t : Nat, t < values.length → target ≠ .int t := by
  constructor
  · intro h t ht htarget
    have hsome := target?_eq_some_iff.mpr ⟨htarget, List.getElem?_eq_getElem ht⟩
    rw [h] at hsome
    cases hsome
  · intro h
    cases ht : target? values target with
    | none => rfl
    | some tv =>
        obtain ⟨t, v⟩ := tv
        obtain ⟨htarget, hv⟩ := target?_eq_some_iff.mp ht
        obtain ⟨hlt, -⟩ := List.getElem?_eq_some_iff.mp hv
        exact absurd htarget (h t hlt)

/-- The trail of a walk. -/
def trail (i : Nat) (path : List Nat) : Trail := ⟨i, path.map Int.ofNat⟩

theorem trail_push : (trail i path).push t = trail i (path ++ [t]) := by
  simp [trail, Trail.push]

theorem trail_cyclePath : (trail i path).cyclePath t = (path ++ [t]).map Int.ofNat := by
  simp [trail, Trail.cyclePath]

theorem trail_contains_iff : (trail i path).contains t = true ↔ t ∈ path := by
  rw [Trail.contains_iff]
  constructor
  · intro h
    obtain ⟨x, hx, hxt⟩ := List.mem_map.mp h
    exact Int.ofNat.inj hxt ▸ hx
  · exact List.mem_map_of_mem

theorem follow_value {v : Value} (hv : ∀ target, v ≠ .ref target) (fuel : Nat) (tr : Trail) :
    follow values fuel tr v = .ok v := by
  cases v with
  | ref target => exact absurd rfl (hv target)
  | _ => rw [follow]; simp

theorem follow_invalid {target : Value} (h : target? values target = none) (fuel : Nat) :
    follow values fuel (trail i path) (.ref target) =
      (Ending.invalid target).outcome values.length i path := by
  rw [follow]
  simp only [h]
  rfl

theorem follow_closing (h : Refers values s t) (ht : t ∈ path) (fuel : Nat) :
    follow values fuel (trail i path) (.ref (.int t)) =
      (Ending.closing t).outcome values.length i path := by
  have htarget := target?_eq_some_iff.mpr ⟨rfl, List.getElem?_eq_getElem h.2⟩
  rw [follow]
  simp only [htarget, trail_contains_iff.mpr ht, trail_cyclePath]
  by_cases hi : t = i
  · simp [Ending.outcome, hi, trail]
  · have hi' : (t : Int) ≠ (trail i path).origin := by
      intro h
      exact hi (Int.natCast_inj.mp h)
    simp only [if_neg hi', if_true, Ending.outcome, if_neg hi]
    rfl

/-- A slot not visited yet is visited next, at the cost of one unit of fuel. -/
theorem follow_fresh {v : Value} (hv : values[t]? = some v) (hi : t ≠ i) (ht : t ∉ path)
    (fuel : Nat) :
    follow values (fuel + 1) (trail i path) (.ref (.int t)) =
      follow values fuel (trail i (path ++ [t])) v := by
  have htarget := target?_eq_some_iff.mpr ⟨rfl, hv⟩
  have hi' : (t : Int) ≠ (trail i path).origin := by
    intro h
    exact hi (Int.natCast_inj.mp h)
  have ht' : (trail i path).contains t ≠ true := by
    intro h
    exact ht (trail_contains_iff.mp h)
  rw [follow]
  simp only [htarget, if_neg hi', ht', trail_push]
  rfl

/-- Following references from the first slot of a walk comes to its last slot, with a unit of
fuel less for every slot behind the first. -/
theorem Walk.follow_eq (hw : Walk values i path s) (hn : path.Nodup) {v₀ v : Value}
    (hv₀ : values[i]? = some v₀) (hv : values[s]? = some v) {fuel : Nat}
    (hfuel : path.length ≤ fuel + 1) :
    follow values fuel (.start i) v₀ = follow values (fuel + 1 - path.length) (trail i path) v := by
  induction hw generalizing v with
  | start _ =>
      cases hv₀.symm.trans hv
      rfl
  | step hw hr ih =>
      rename_i path s t
      have hn' : path.Nodup := hn.of_append_left
      have ht : t ∉ path := by
        intro ht
        exact List.disjoint_of_nodup_append hn ht (List.mem_singleton_self t)
      have hi : t ≠ i := by
        intro hi
        exact ht (hi ▸ hw.origin_mem)
      rw [List.length_append, List.length_singleton] at hfuel
      have hsucc : fuel + 1 - path.length = (fuel - path.length) + 1 := by omega
      have hpred : fuel + 1 - (path ++ [t]).length = fuel - path.length := by simp
      rw [ih hn' hr.1 (by omega), hsucc, follow_fresh hv hi ht, hpred]

theorem Ends.length_le {e : Ending} (h : Ends values i path e) :
    path.length ≤ values.length := by
  cases h with
  | value hw hn _ _ => exact hw.length_le hn
  | invalid hw hn _ _ => exact hw.length_le hn
  | closing hw hn _ _ => exact hw.length_le hn

/-- The end of a walk decides the outcome, given fuel for its length. -/
theorem Ends.follow_eq {e : Ending} (h : Ends values i path e) {v₀ : Value}
    (hv₀ : values[i]? = some v₀) {fuel : Nat} (hfuel : path.length ≤ fuel + 1) :
    follow values fuel (.start i) v₀ = e.outcome values.length i path := by
  cases h with
  | value hw hn hv href => rw [hw.follow_eq hn hv₀ hv hfuel, follow_value href]; rfl
  | invalid hw hn hv hslot =>
      rw [hw.follow_eq hn hv₀ hv hfuel, follow_invalid (target?_eq_none_iff.mpr hslot)]
  | closing hw hn hr ht => rw [hw.follow_eq hn hv₀ hr.1 hfuel, follow_closing hr ht]

theorem resolveIn_eq_follow {v : Value} (hv : values[i]? = some v) :
    resolveIn values i = follow values values.length (.start i) v := by
  rw [resolveIn, target?_eq_some_iff.mpr ⟨rfl, hv⟩]

theorem Ends.resolveIn_eq {e : Ending} (h : Ends values i path e) (hi : i < values.length) :
    resolveIn values i = e.outcome values.length i path := by
  have hv := List.getElem?_eq_getElem hi
  have hlength := h.length_le
  rw [resolveIn_eq_follow hv, h.follow_eq hv (by omega)]

theorem outcome_invalid (n i : Nat) (path : List Nat) {target : Value} {shown : Text}
    (h : target.shown = .ok shown) :
    ∃ d, (Ending.invalid target).outcome n i path = .error (.ofDiagnostic d) ∧
      d.code = .invalidReference := by
  simp only [Ending.outcome, h]
  exact ⟨_, rfl, rfl⟩

/-- The positions on a path can all be written. -/
theorem chain_position (path : List Int) :
    Diagnostic.chain (path.map .position) = .ok (Reporter.pathText path) := by
  have hslots : (path.map Index.position).mapM Index.write = .ok (path.map Numeral.ofInt) := by
    rw [List.mapM_map]
    exact Outcome.mapM_eq_ok fun _ _ => rfl
  rw [Diagnostic.chain, hslots]
  rfl

theorem map_toInt_position (path : List Int) :
    (path.map Index.position).map Index.toInt = path := by
  rw [List.map_map]
  exact List.map_id path

theorem outcome_closing (n i : Nat) (path : List Nat) (t : Nat) :
    ∃ d, (Ending.closing t).outcome n i path = .error (.ofDiagnostic d) ∧
      d.code = (if t = i then .selfReference else .referenceCycle) ∧
      d.path = some ((path ++ [t]).map Int.ofNat) ∧ d.slot = some i ∧ d.offset = none := by
  have hchain := chain_position ((path ++ [t]).map Int.ofNat)
  have hpath := congrArg some (map_toInt_position ((path ++ [t]).map Int.ofNat))
  by_cases hi : t = i
  · simp only [Ending.outcome, if_pos hi, Diagnostic.selfReference, Diagnostic.closedChain, hchain]
    exact ⟨_, rfl, rfl, hpath, rfl, rfl⟩
  · simp only [Ending.outcome, if_neg hi, Diagnostic.referenceCycle, Diagnostic.closedChain, hchain]
    exact ⟨_, rfl, rfl, hpath, rfl, rfl⟩

theorem raises_ofDiagnostic {α : Type} {o : Outcome α} {d : Diagnostic} {c : Category}
    (h : o = .error (.ofDiagnostic d)) : o.Raises c ↔ d.code.category = c := by
  constructor
  · intro h'
    obtain ⟨f, hf, hc⟩ := h'
    cases h.symm.trans hf
    exact hc
  · intro hc
    exact ⟨_, h, hc⟩

theorem Ends.raises_iff {e : Ending} (h : Ends values i path e) (hi : i < values.length)
    (hshown : ∀ target, .ref target ∈ values → ∃ s, target.shown = .ok s) (c : Category) :
    (resolveIn values i).Raises c ↔ e.category? i = some c := by
  rw [h.resolveIn_eq hi]
  cases h with
  | value _ _ _ _ => simp [Outcome.Raises, Ending.outcome, Ending.category?]
  | invalid _ _ hv _ =>
      obtain ⟨shown, hs⟩ := hshown _ (List.mem_of_getElem? hv)
      obtain ⟨d, hd, hcode⟩ := outcome_invalid values.length i path hs
      rw [raises_ofDiagnostic hd, hcode, Ending.category?, Option.some_inj]
      rfl
  | closing _ _ _ _ =>
      rename_i t _ _ _ _
      obtain ⟨d, hd, hcode, -⟩ := outcome_closing values.length i path t
      rw [raises_ofDiagnostic hd, hcode, Ending.category?, Option.some_inj]
      split <;> rfl

theorem raises_iff_ends (hi : i < values.length)
    (hshown : ∀ target, .ref target ∈ values → ∃ s, target.shown = .ok s) (c : Category) :
    (resolveIn values i).Raises c ↔ ∃ path e, Ends values i path e ∧ e.category? i = some c := by
  constructor
  · intro h
    obtain ⟨path, e, he⟩ := exists_ends hi
    exact ⟨path, e, he, (he.raises_iff hi hshown c).mp h⟩
  · intro h
    obtain ⟨path, e, he, hc⟩ := h
    exact (he.raises_iff hi hshown c).mpr hc

theorem Ends.mem_of_refers {e : Ending} (h : Ends values i path e) (hs : s ∈ path)
    (hr : Refers values s t) : t ∈ path := by
  cases h with
  | value hw _ hv href =>
      rcases hw.last_or_refers s hs with rfl | ⟨y, hy, hsy⟩
      · exact absurd (Option.some.inj (hv.symm.trans hr.1)) (href _)
      · exact hr.unique hsy ▸ hy
  | invalid hw _ hv hslot =>
      rcases hw.last_or_refers s hs with rfl | ⟨y, hy, hsy⟩
      · cases hv.symm.trans hr.1
        exact absurd rfl (hslot t hr.2)
      · exact hr.unique hsy ▸ hy
  | closing hw _ hr' ht =>
      rcases hw.last_or_refers s hs with rfl | ⟨y, hy, hsy⟩
      · exact hr.unique hr' ▸ ht
      · exact hr.unique hsy ▸ hy

theorem Ends.mem_of_walk {e : Ending} (h : Ends values i path e) {path' : List Nat}
    (hw : Walk values i path' t) : t ∈ path := by
  induction hw with
  | start _ =>
      cases h with
      | value hw _ _ _ => exact hw.origin_mem
      | invalid hw _ _ _ => exact hw.origin_mem
      | closing hw _ _ _ => exact hw.origin_mem
  | step _ hr ih => exact h.mem_of_refers ih hr

/-- Only the last slot of a walk can hold a value that is no reference. -/
theorem Ends.eq_value {e : Ending} (h : Ends values i path e) (hs : s ∈ path) {v : Value}
    (hv : values[s]? = some v) (href : ∀ target, v ≠ .ref target) : e = .value v := by
  have hlast : ∀ {x}, (x = s ∨ ∃ y ∈ path, Refers values s y) →
      ∀ {w}, values[x]? = some w → w = v := by
    intro x hx w hw
    rcases hx with rfl | ⟨y, -, hsy⟩
    · exact Option.some.inj (hw.symm.trans hv)
    · exact absurd (Option.some.inj (hv.symm.trans hsy.1)) (href _)
  cases h with
  | value hw _ hv' _ => rw [hlast ((hw.last_or_refers s hs).imp_left Eq.symm) hv']
  | invalid hw _ hv' _ =>
      exact absurd (hlast ((hw.last_or_refers s hs).imp_left Eq.symm) hv').symm (href _)
  | closing hw _ hr _ =>
      exact absurd (hlast ((hw.last_or_refers s hs).imp_left Eq.symm) hr.1).symm (href _)

theorem category?_eq_some_iff {e : Ending} :
    (e.category? i = some .invalidReference ↔ ∃ target, e = .invalid target) ∧
    (e.category? i = some .selfReference ↔ e = .closing i) ∧
    (e.category? i = some .referenceCycle ↔ ∃ t, e = .closing t ∧ t ≠ i) := by
  cases e with
  | value v => simp [Ending.category?]
  | invalid target => simp [Ending.category?]
  | closing t =>
      by_cases ht : t = i
      · simp [Ending.category?, ht]
      · simp [Ending.category?, ht]

theorem outcome_eq_ok_iff {e : Ending} {n : Nat} {v : Value} :
    e.outcome n i path = .ok v ↔ e = .value v := by
  cases e with
  | value w => simp [Ending.outcome]
  | invalid target =>
      simp only [Ending.outcome, reduceCtorEq, iff_false]
      intro h
      exact Outcome.refuse_ne_ok _ _ h
  | closing t =>
      obtain ⟨d, hd, -, -⟩ := outcome_closing n i path t
      simp [hd]

/-- A value that is no reference is the outcome as soon as a walk comes to it. -/
theorem resolveIn_eq_ok_iff (hi : i < values.length) {v : Value} :
    resolveIn values i = .ok v ↔ ∃ path s, Walk values i path s ∧ values[s]? = some v ∧
      ∀ target, v ≠ .ref target := by
  obtain ⟨path, e, he⟩ := exists_ends hi
  rw [he.resolveIn_eq hi, outcome_eq_ok_iff]
  constructor
  · intro h
    cases h
    cases he with
    | value hw _ hv href => exact ⟨_, _, hw, hv, href⟩
  · intro h
    obtain ⟨path', s, hw, hv, href⟩ := h
    exact he.eq_value (he.mem_of_walk hw) hv href

theorem mem_of_resolveIn (hi : i < values.length) {v : Value} (h : resolveIn values i = .ok v) :
    v ∈ values := by
  obtain ⟨path, s, -, hv, -⟩ := (resolveIn_eq_ok_iff hi).mp h
  exact List.mem_of_getElem? hv

/-- A slot that there is lacks no value. What its reference holds may be a formatted text whose own
rendering lacks one, and then showing it ends with that fault. -/
theorem missingArgument_of_shown (hi : i < values.length) {f : Fault}
    (hf : resolveIn values i = .error (.fault f)) (hc : f.category = .missingArgument) :
    ∃ target, .ref target ∈ values ∧ target.shown = .error (.fault f) := by
  obtain ⟨path, e, he⟩ := exists_ends hi
  rw [he.resolveIn_eq hi] at hf
  cases he with
  | value _ _ _ _ => cases hf
  | invalid _ _ hv _ =>
      rename_i target _ _ _
      refine ⟨target, List.mem_of_getElem? hv, ?_⟩
      cases hs : target.shown with
      | error e =>
          rw [Ending.outcome, hs] at hf
          cases hf
          rfl
      | ok shown =>
          obtain ⟨d, hd, hcode⟩ := outcome_invalid values.length i path hs
          cases hf.symm.trans hd
          rw [Fault.ofDiagnostic, hcode] at hc
          cases hc
  | closing _ _ _ _ =>
      rename_i t _ _ _ _
      obtain ⟨d, hd, hcode, -⟩ := outcome_closing values.length i path t
      cases hf.symm.trans hd
      rw [Fault.ofDiagnostic, hcode] at hc
      split at hc <;> cases hc

/-- The path of a fault is the walk with the slot that closes it. -/
theorem path_of_closing (hi : i < values.length)
    (hshown : ∀ target, .ref target ∈ values → ∃ s, target.shown = .ok s) {f : Fault}
    (hf : resolveIn values i = .error (.fault f))
    (hc : f.category = .selfReference ∨ f.category = .referenceCycle) :
    ∃ path t, f.diagnostic?.bind (·.path) = some ((path ++ [t]).map Int.ofNat) ∧
      path.head? = some i ∧ (path ++ [t]).IsChain (Refers values) ∧ path.Nodup ∧ t ∈ path := by
  obtain ⟨path, e, he⟩ := exists_ends hi
  have hcategory := (he.raises_iff hi hshown f.category).mp ⟨f, hf, rfl⟩
  obtain ⟨t, rfl⟩ : ∃ t, e = .closing t := by
    rcases hc with hc | hc
    · exact ⟨i, category?_eq_some_iff.2.1.mp (hc ▸ hcategory)⟩
    · obtain ⟨t, ht, -⟩ := category?_eq_some_iff.2.2.mp (hc ▸ hcategory)
      exact ⟨t, ht⟩
  obtain ⟨d, hd, -, hpath, -⟩ := outcome_closing values.length i path t
  cases hf.symm.trans ((he.resolveIn_eq hi).trans hd)
  cases he with
  | closing hw hn hr ht => exact ⟨path, t, hpath, hw.head?, (hw.step hr).isChain, hn, ht⟩

/-- The chain of references from a slot decides the outcome of resolving it, after at most as many
references as there are slots. -/
theorem resolveIn_decided (hi : i < values.length)
    (hshown : ∀ target, .ref target ∈ values → ∃ s, target.shown = .ok s) :
    (∃ path e, Ends values i path e ∧ resolveIn values i = e.outcome values.length i path ∧
      path.length ≤ values.length ∧
      ∀ fuel v, values[i]? = some v → path.length ≤ fuel + 1 →
        follow values fuel (.start i) v = resolveIn values i) ∧
    (∀ v, resolveIn values i = .ok v ↔ ∃ path s, Walk values i path s ∧ values[s]? = some v ∧
      ∀ target, v ≠ .ref target) ∧
    ((resolveIn values i).Raises .invalidReference ↔
      ∃ path target, Ends values i path (.invalid target)) ∧
    ((resolveIn values i).Raises .selfReference ↔ ∃ path, Ends values i path (.closing i)) ∧
    ((resolveIn values i).Raises .referenceCycle ↔
      ∃ path t, Ends values i path (.closing t) ∧ t ≠ i) ∧
    ∀ f, resolveIn values i = .error (.fault f) →
      f.category = .selfReference ∨ f.category = .referenceCycle →
      ∃ path t, f.diagnostic?.bind (·.path) = some ((path ++ [t]).map Int.ofNat) ∧
        path.head? = some i ∧ (path ++ [t]).IsChain (Refers values) ∧ path.Nodup ∧ t ∈ path := by
  refine ⟨?_, fun v => resolveIn_eq_ok_iff hi, ?_, ?_, ?_, fun f => path_of_closing hi hshown⟩
  · obtain ⟨path, e, he⟩ := exists_ends hi
    refine ⟨path, e, he, he.resolveIn_eq hi, he.length_le, ?_⟩
    intro fuel v hv hfuel
    rw [he.follow_eq hv hfuel, he.resolveIn_eq hi]
  · rw [raises_iff_ends hi hshown]
    constructor
    · intro h
      obtain ⟨path, e, he, hc⟩ := h
      obtain ⟨target, rfl⟩ := category?_eq_some_iff.1.mp hc
      exact ⟨path, target, he⟩
    · intro h
      obtain ⟨path, target, he⟩ := h
      exact ⟨path, _, he, rfl⟩
  · rw [raises_iff_ends hi hshown]
    constructor
    · intro h
      obtain ⟨path, e, he, hc⟩ := h
      exact ⟨path, category?_eq_some_iff.2.1.mp hc ▸ he⟩
    · intro h
      obtain ⟨path, he⟩ := h
      exact ⟨path, _, he, category?_eq_some_iff.2.1.mpr rfl⟩
  · rw [raises_iff_ends hi hshown]
    constructor
    · intro h
      obtain ⟨path, e, he, hc⟩ := h
      obtain ⟨t, rfl, ht⟩ := category?_eq_some_iff.2.2.mp hc
      exact ⟨path, t, he, ht⟩
    · intro h
      obtain ⟨path, t, he, ht⟩ := h
      exact ⟨path, _, he, category?_eq_some_iff.2.2.mpr ⟨t, rfl, ht⟩⟩

/-- A tail that leads into a cycle away from its first slot. -/
theorem resolveIn_tail_into_cycle :
    (resolveIn [.ref (.int 1), .ref (.int 2), .ref (.int 1)] 0).Raises .referenceCycle := by
  have hshown : ∀ target, .ref target ∈ [.ref (.int 1), .ref (.int 2), Value.ref (.int 1)] →
      ∃ s, target.shown = .ok s := by
    intro target h
    simp only [List.mem_cons, List.not_mem_nil, or_false, Value.ref.injEq] at h
    rcases h with rfl | rfl | rfl
    · exact ⟨['1'], rfl⟩
    · exact ⟨['2'], rfl⟩
    · exact ⟨['1'], rfl⟩
  have hwalk : Walk [.ref (.int 1), .ref (.int 2), .ref (.int 1)] 0 [0, 1, 2] 2 :=
    ((Walk.start (by decide)).step ⟨rfl, by decide⟩).step ⟨rfl, by decide⟩
  exact (resolveIn_decided (by decide) hshown).2.2.2.2.1.mpr
    ⟨[0, 1, 2], 1, .closing hwalk (by decide) ⟨rfl, by decide⟩ (by decide), by decide⟩

end Supply

end SlotText
