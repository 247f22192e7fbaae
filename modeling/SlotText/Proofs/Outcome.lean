import SlotText.Diagnostic.Message
import Mathlib.Data.List.Forall2

/-!
# Outcomes of computations in steps

A computation in steps succeeds when all of its steps do, and ends with the failure of the first
step that fails. These lemmas take such a computation apart, so that a proof about it names the
intermediate results instead of opening the definitions.
-/
namespace SlotText

/-- The failure is no fault of a template. -/
def Failure.NoFault (e : Failure) : Prop := ∀ f, e ≠ .fault f

namespace Outcome

variable {α β γ : Type}

theorem pure_eq (a : α) : (pure a : Outcome α) = .ok a := rfl

theorem ok_bind (a : α) (f : α → Outcome β) : ((.ok a : Outcome α) >>= f) = f a := rfl

theorem error_bind (e : Failure) (f : α → Outcome β) : ((.error e : Outcome α) >>= f) = .error e :=
  rfl

theorem ok_ne_error (a : α) (e : Failure) : (.ok a : Outcome α) ≠ .error e := by
  intro h
  cases h

theorem bind_eq_ok {x : Outcome α} {f : α → Outcome β} {b : β} :
    x >>= f = .ok b ↔ ∃ a, x = .ok a ∧ f a = .ok b := by
  constructor
  · intro h
    cases x with
    | error e => cases h
    | ok a => exact ⟨a, rfl, h⟩
  · rintro ⟨a, rfl, h⟩
    exact h

theorem bind_eq_error {x : Outcome α} {f : α → Outcome β} {e : Failure} :
    x >>= f = .error e ↔ x = .error e ∨ ∃ a, x = .ok a ∧ f a = .error e := by
  cases x with
  | error e' => simp [error_bind]
  | ok a => simp [ok_bind]

/-- A last step that succeeds changes nothing about the failures. -/
theorem bind_eq_error_iff {x : Outcome α} {f : α → Outcome β} (hf : ∀ a, ∃ b, f a = .ok b)
    {e : Failure} : x >>= f = .error e ↔ x = .error e := by
  cases x with
  | error e' => simp [error_bind]
  | ok a =>
      obtain ⟨b, hb⟩ := hf a
      simp [ok_bind, hb]

theorem bind_congr {x : Outcome α} {f g : α → Outcome β} (h : ∀ a, f a = g a) :
    (x >>= f) = (x >>= g) := by
  rw [funext h]

theorem map_bind (x : Outcome α) (f : α → Outcome β) (g : β → γ) :
    (x >>= f).map g = (x >>= fun a => (f a).map g) := by
  cases x <;> rfl

theorem bind_map (x : Outcome α) (f : α → β) (g : β → Outcome γ) :
    (x.map f >>= g) = (x >>= fun a => g (f a)) := by
  cases x <;> rfl

theorem map_eq_ok {x : Outcome α} {f : α → β} {b : β} :
    x.map f = .ok b ↔ ∃ a, x = .ok a ∧ f a = b := by
  cases x with
  | error e => simp [Except.map]
  | ok a => simp [Except.map]

theorem map_eq_error_iff {x : Outcome α} {f : α → β} {e : Failure} :
    x.map f = .error e ↔ x = .error e := by
  cases x with
  | error e' => simp [Except.map]
  | ok a => simp [Except.map]

theorem mapM_eq_ok_iff {f : α → Outcome β} {l : List α} {bs : List β} :
    l.mapM f = .ok bs ↔ List.Forall₂ (fun a b => f a = .ok b) l bs := by
  induction l generalizing bs with
  | nil =>
      rw [List.forall₂_nil_left_iff]
      exact ⟨fun h => (Except.ok.inj h).symm, fun h => h ▸ rfl⟩
  | cons a l ih =>
      rw [List.mapM_cons, List.forall₂_cons_left_iff, bind_eq_ok]
      constructor
      · rintro ⟨b, hb, h⟩
        obtain ⟨bs', hbs, h⟩ := bind_eq_ok.mp h
        exact ⟨b, bs', hb, ih.mp hbs, (Except.ok.inj h).symm⟩
      · rintro ⟨b, bs', hb, hbs, rfl⟩
        exact ⟨b, hb, bind_eq_ok.mpr ⟨bs', ih.mpr hbs, rfl⟩⟩

theorem mapM_eq_ok {f : α → Outcome β} {g : α → β} {l : List α}
    (h : ∀ a ∈ l, f a = .ok (g a)) : l.mapM f = .ok (l.map g) :=
  mapM_eq_ok_iff.mpr (List.forall₂_map_right_iff.mpr (List.forall₂_same.mpr h))

/-- A computation over a list that succeeds has succeeded in every round. -/
theorem exists_of_foldlM_eq_ok {f : β → α → Outcome β} {l : List α} {b b' : β}
    (h : l.foldlM f b = .ok b') : ∀ a ∈ l, ∃ c c', f c a = .ok c' := by
  induction l generalizing b with
  | nil => simp
  | cons a l ih =>
      rw [List.foldlM_cons] at h
      obtain ⟨c, hc, hrest⟩ := bind_eq_ok.mp h
      exact List.forall_mem_cons.mpr ⟨⟨b, c, hc⟩, ih hrest⟩

/-- A computation over a list that fails has failed in some round, after rounds that succeeded. -/
theorem exists_of_foldlM_eq_error {f : β → α → Outcome β} {l : List α} {b : β} {e : Failure}
    (h : l.foldlM f b = .error e) :
    ∃ l₁ a l₂ c, l = l₁ ++ a :: l₂ ∧ l₁.foldlM f b = .ok c ∧ f c a = .error e := by
  induction l generalizing b with
  | nil => cases h
  | cons a l ih =>
      rw [List.foldlM_cons] at h
      cases hc : f b a with
      | error e' =>
          rw [hc] at h
          cases h
          exact ⟨[], a, l, b, rfl, rfl, hc⟩
      | ok c =>
          rw [hc] at h
          obtain ⟨l₁, a', l₂, c', rfl, hok, herror⟩ := ih h
          refine ⟨a :: l₁, a', l₂, c', rfl, ?_, herror⟩
          rw [List.foldlM_cons, hc]
          exact hok

theorem refuse_bind (x : Outcome β) (f : β → Outcome Diagnostic) :
    (refuse (x >>= f) : Outcome α) = (x >>= fun b => refuse (f b)) := by
  cases x <;> rfl

theorem refuse_ne_ok (d : Outcome Diagnostic) (a : α) : refuse d ≠ .ok a := by
  cases d <;> simp [refuse]

/-- Every failure that the computation ends with is of some kind. -/
def FailsOnly (P : Failure → Prop) (o : Outcome α) : Prop := ∀ e, o = .error e → P e

variable {P Q : Failure → Prop}

theorem failsOnly_ok (a : α) : FailsOnly P (.ok a : Outcome α) := by
  intro e h
  cases h

theorem failsOnly_error {e : Failure} (h : P e) : FailsOnly P (.error e : Outcome α) := by
  intro e' he
  cases he
  exact h

theorem FailsOnly.mono {o : Outcome α} (h : FailsOnly P o) (hPQ : ∀ e, P e → Q e) :
    FailsOnly Q o := by
  intro e he
  exact hPQ e (h e he)

/-- A computation in steps fails with what one of its steps fails with. -/
theorem FailsOnly.bind {x : Outcome α} {f : α → Outcome β} (hx : FailsOnly P x)
    (hf : ∀ a, x = .ok a → FailsOnly P (f a)) : FailsOnly P (x >>= f) := by
  intro e h
  cases x with
  | error e' =>
      cases h
      exact hx e rfl
  | ok a => exact hf a rfl e h

theorem FailsOnly.map {x : Outcome α} (h : FailsOnly P x) (f : α → β) : FailsOnly P (x.map f) := by
  intro e he
  exact h e (map_eq_error_iff.mp he)

/-- A computation over a list fails with what one of its rounds fails with. -/
theorem failsOnly_foldlM {f : β → α → Outcome β} {l : List α}
    (h : ∀ a ∈ l, ∀ b, FailsOnly P (f b a)) (b : β) : FailsOnly P (l.foldlM f b) := by
  induction l generalizing b with
  | nil => exact failsOnly_ok b
  | cons a l ih =>
      obtain ⟨hfirst, hrest⟩ := List.forall_mem_cons.mp h
      rw [List.foldlM_cons]
      exact (hfirst b).bind fun b' _ => ih hrest b'

/-- The computation ends with a result of one kind or with a failure of another. -/
structure Yields (R : α → Prop) (P : Failure → Prop) (o : Outcome α) : Prop where
  result : ∀ a, o = .ok a → R a
  failsOnly : FailsOnly P o

variable {R : α → Prop} {S : β → Prop}

theorem yields_ok {a : α} (h : R a) : Yields R P (.ok a) := by
  refine ⟨?_, failsOnly_ok a⟩
  intro a' ha'
  cases ha'
  exact h

theorem yields_refuse {d : Outcome Diagnostic} (h : FailsOnly P (refuse d : Outcome α)) :
    Yields R P (refuse d) :=
  ⟨fun a ha => absurd ha (refuse_ne_ok d a), h⟩

theorem Yields.mono {o : Outcome α} (h : Yields R P o) (hPQ : ∀ e, P e → Q e) : Yields R Q o :=
  ⟨h.result, h.failsOnly.mono hPQ⟩

theorem Yields.bind {x : Outcome α} {f : α → Outcome β} (hx : Yields R P x)
    (hf : ∀ a, R a → Yields S P (f a)) : Yields S P (x >>= f) := by
  refine ⟨?_, hx.failsOnly.bind fun a ha => (hf a (hx.result a ha)).failsOnly⟩
  intro b hb
  obtain ⟨a, ha, hb⟩ := bind_eq_ok.mp hb
  exact (hf a (hx.result a ha)).result b hb

/-- The computation succeeds under a condition, and otherwise it ends with one failure. -/
structure Decided (C : Prop) (e : Failure) (o : Outcome α) : Prop where
  ok : C → ∃ a, o = .ok a
  error : ¬C → o = .error e

section

variable {C D : Prop} {e : Failure}

theorem decided_ok (h : C) (a : α) : Decided C e (.ok a : Outcome α) :=
  ⟨fun _ => ⟨a, rfl⟩, fun hC => absurd h hC⟩

theorem Decided.ok_iff {o : Outcome α} (h : Decided C e o) : (∃ a, o = .ok a) ↔ C := by
  refine ⟨fun hok => ?_, h.ok⟩
  by_contra hC
  obtain ⟨a, ha⟩ := hok
  exact ok_ne_error a e (ha.symm.trans (h.error hC))

theorem Decided.congr {o : Outcome α} (h : Decided C e o) (hCD : C ↔ D) : Decided D e o := by
  rwa [hCD] at h

/-- A last step that succeeds does not change when a computation does. -/
theorem Decided.bind {x : Outcome α} {f : α → Outcome β} (h : Decided C e x)
    (hf : ∀ a, ∃ b, f a = .ok b) : Decided C e (x >>= f) := by
  refine ⟨fun hC => ?_, fun hC => by rw [h.error hC, error_bind]⟩
  obtain ⟨a, ha⟩ := h.ok hC
  rw [ha, ok_bind]
  exact hf a

/-- A computation over a list is decided by what each of its rounds is decided by. -/
theorem Decided.mapM {f : α → Outcome β} {P : α → Prop} {l : List α}
    (h : ∀ a ∈ l, Decided (P a) e (f a)) : Decided (∀ a ∈ l, P a) e (l.mapM f) := by
  induction l with
  | nil => exact decided_ok (List.forall_mem_nil P) []
  | cons a l ih =>
      obtain ⟨hfirst, hrest⟩ := List.forall_mem_cons.mp h
      rw [List.forall_mem_cons, List.mapM_cons]
      constructor
      · rintro ⟨ha, hl⟩
        obtain ⟨b, hb⟩ := hfirst.ok ha
        obtain ⟨bs, hbs⟩ := (ih hrest).ok hl
        exact ⟨b :: bs, by rw [hb, ok_bind, hbs, ok_bind, pure_eq]⟩
      · intro hnot
        by_cases ha : P a
        · obtain ⟨b, hb⟩ := hfirst.ok ha
          rw [hb, ok_bind, (ih hrest).error fun hl => hnot ⟨ha, hl⟩, error_bind]
        · rw [hfirst.error ha, error_bind]

end

end Outcome

open Failure (NoFault)
open Outcome (FailsOnly failsOnly_ok failsOnly_error)

theorem Numeral.failsOnly_write (n : Int) : FailsOnly NoFault (write n) := by
  unfold write
  dsimp only
  split
  · exact failsOnly_error fun _ => nofun
  · exact failsOnly_ok _

namespace Diagnostic

/-- A place is counted from zero, or it is refused without a fault. -/
theorem place_cases (refusal : Int → Failure) (hrefusal : ∀ n, (refusal n).NoFault)
    (i : Option Int) :
    (∃ k : Option Nat, i = k.map Int.ofNat ∧ place refusal i = .ok k) ∨
      ∃ e, place refusal i = .error e ∧ e.NoFault := by
  match i with
  | none => exact .inl ⟨none, rfl, rfl⟩
  | some (.ofNat n) => exact .inl ⟨some n, rfl, rfl⟩
  | some (.negSucc n) =>
      refine .inr ?_
      rw [place]
      cases hwrite : Numeral.write (.negSucc n) with
      | error e => exact ⟨e, rfl, Numeral.failsOnly_write _ e hwrite⟩
      | ok s => exact ⟨_, rfl, hrefusal _⟩

theorem located_cases (d : Diagnostic) (slot offset : Option Int) :
    (∃ i o : Option Nat, slot = i.map Int.ofNat ∧ offset = o.map Int.ofNat ∧
      d.located slot offset = .ok { d with slot := i, offset := o }) ∨
      ∃ e, d.located slot offset = .error e ∧ e.NoFault := by
  unfold located
  rcases place_cases .negativeSlot (fun _ _ => nofun) slot with
    ⟨i, hi, hslot⟩ | ⟨e, he, hne⟩
  · rw [hslot, Outcome.ok_bind]
    rcases place_cases .negativeOffset (fun _ _ => nofun) offset with
      ⟨o, ho, hoffset⟩ | ⟨e, he, hne⟩
    · rw [hoffset, Outcome.ok_bind]
      exact .inl ⟨i, o, hi, ho, rfl⟩
    · rw [he, Outcome.error_bind]
      exact .inr ⟨e, rfl, hne⟩
  · rw [he, Outcome.error_bind]
    exact .inr ⟨e, rfl, hne⟩

end Diagnostic

end SlotText
