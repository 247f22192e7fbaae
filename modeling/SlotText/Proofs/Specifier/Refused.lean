import SlotText.Proofs.Specifier.Reading
import SlotText.Template.Blueprint

/-!
# Why a specifier is refused

A specifier is refused for one of three reasons. An amount is deferred and there is no slot behind
the last one to take it from, and then the slot that is missing is the one behind the last. Or the
specifier goes on with a character that cannot continue it. Or a run of digits is too long to
stand for a number, which is no fault of the template but a limit on numerals.

The reading of a specifier keeps step with the slots: every literal it has taken stands for a slot
it has absorbed. That is the invariant which carries the first reason.
-/
namespace SlotText
open Grammar

namespace Placement

/-- The failures of reading the specifier of a slot from some literals. -/
inductive Refused (slot count : Nat) (literals : List Text) : Failure → Prop
  | missing {d : Diagnostic} : d.code = .missingArgument → d.slot = some count →
      d.offset = none → Refused slot count literals (.ofDiagnostic d)
  | malformed {d : Diagnostic} {offset : Nat} : d.code = .malformedSpecifier →
      d.slot = some slot → d.offset = some offset → Refused slot count literals (.ofDiagnostic d)
  | tooLong {s : Text} (n : Nat) : s ∈ literals → ¬s.RunsWithin Numeral.longest →
      Refused slot count literals (.numeralTooLongToRead n)

theorem Refused.mono {slot count : Nat} {literals literals' : List Text} {e : Failure}
    (h : Refused slot count literals e) (hl : ∀ s ∈ literals, s ∈ literals') :
    Refused slot count literals' e := by
  cases h with
  | missing hc hs ho => exact .missing hc hs ho
  | malformed hc hs ho => exact .malformed hc hs ho
  | tooLong n hs hr => exact .tooLong n (hl _ hs) hr

namespace Reading

/-- The reading has absorbed a slot for each literal that it has taken, and what is left to read is
the end of one of the literals. -/
structure InStep (r : Reading) (slot count : Nat) (literals : List Text) : Prop where
  slot_eq : r.slot = slot
  count_eq : r.count = count
  left : slot + 1 + r.absorbed + r.following.length = count
  length_le : r.rest.length ≤ r.fused.length
  rest : ∃ s ∈ literals, r.rest <:+ s
  following : ∀ s ∈ r.following, s ∈ literals

variable {r r' : Reading} {slot count : Nat} {literals : List Text}

theorem InStep.drop (h : r.InStep slot count literals) {rest : Text} (hr : rest <:+ r.rest) :
    InStep { r with rest := rest } slot count literals := by
  obtain ⟨s, hs, hsuffix⟩ := h.rest
  exact ⟨h.slot_eq, h.count_eq, h.left, Nat.le_trans hr.length_le h.length_le,
    ⟨s, hs, hr.trans hsuffix⟩, h.following⟩

theorem failsOnly_absorb (h : r.InStep slot count literals) :
    Outcome.FailsOnly (Refused slot count literals) r.absorb := by
  unfold absorb
  split
  · next hf =>
      have hleft := h.left
      rw [hf, List.length_nil, Nat.add_zero] at hleft
      have hnext : r.nextSlot = count := by
        rw [nextSlot, h.slot_eq]
        omega
      rw [hnext, h.count_eq]
      exact Outcome.failsOnly_error (.missing rfl rfl rfl)
  · exact Outcome.failsOnly_ok _

theorem InStep.absorb (h : r.InStep slot count literals) (hr : r.rest = [])
    (ha : r.absorb = .ok r') : r'.InStep slot count literals := by
  unfold Reading.absorb at ha
  split at ha
  · exact absurd ha (Outcome.refuse_ne_ok _ _)
  · next literal following hf =>
      cases ha
      have hleft := h.left
      rw [hf, List.length_cons] at hleft
      have hfollowing := h.following
      rw [hf] at hfollowing
      obtain ⟨hliteral, hfollowing⟩ := List.forall_mem_cons.mp hfollowing
      refine ⟨h.slot_eq, h.count_eq, ?_, ?_, ⟨literal, hliteral, ?_⟩, hfollowing⟩
      · dsimp only
        omega
      · simp [hr]
      · simp [hr]

theorem failsOnly_takeAmount (h : r.InStep slot count literals) :
    Outcome.FailsOnly (Refused slot count literals) r.takeAmount := by
  obtain ⟨ds, rest, hr, hds, hrest⟩ := exists_digits r.rest
  by_cases hne : ds = []
  · subst hne
    cases rest with
    | nil =>
        rw [takeAmount_of_end hr]
        exact (failsOnly_absorb h).bind fun _ _ => Outcome.failsOnly_ok _
    | cons c rest =>
        rw [takeAmount_of_other hr hrest]
        exact Outcome.failsOnly_ok _
  · rw [takeAmount_of_digits hr hne hds hrest]
    refine Outcome.FailsOnly.bind ?_ fun _ _ => Outcome.failsOnly_ok _
    unfold Numeral.read
    split
    · next hlong =>
        obtain ⟨s, hs, hsuffix⟩ := h.rest
        refine Outcome.failsOnly_error (.tooLong _ hs ?_)
        intro hruns
        have hinfix : ds <:+: s := (hr ▸ List.prefix_append ds rest).isInfix.trans hsuffix.isInfix
        have hle := hruns ds hinfix hds
        omega
    · exact Outcome.failsOnly_ok _

theorem InStep.takeAmount (h : r.InStep slot count literals) {m : Amount}
    (ha : r.takeAmount = .ok (m, r')) : r'.InStep slot count literals := by
  obtain ⟨ds, rest, hr, hds, hrest⟩ := exists_digits r.rest
  by_cases hne : ds = []
  · subst hne
    cases rest with
    | nil =>
        rw [takeAmount_of_end hr] at ha
        obtain ⟨r₁, hr₁, ha⟩ := Outcome.bind_eq_ok.mp ha
        cases ha
        exact h.absorb hr hr₁
    | cons c rest =>
        rw [takeAmount_of_other hr hrest] at ha
        cases ha
        exact h
  · rw [takeAmount_of_digits hr hne hds hrest] at ha
    obtain ⟨n, -, ha⟩ := Outcome.bind_eq_ok.mp ha
    cases ha
    exact h.drop (hr ▸ List.suffix_append ds rest)

theorem failsOnly_takePrecision (h : r.InStep slot count literals) :
    Outcome.FailsOnly (Refused slot count literals) r.takePrecision := by
  unfold takePrecision
  split
  · next rest hr => exact failsOnly_takeAmount (h.drop (hr ▸ List.suffix_cons '.' rest))
  · exact Outcome.failsOnly_ok _

theorem InStep.takePrecision (h : r.InStep slot count literals) {m : Amount}
    (ha : r.takePrecision = .ok (m, r')) : r'.InStep slot count literals := by
  unfold Reading.takePrecision at ha
  split at ha
  · next rest hr => exact (h.drop (hr ▸ List.suffix_cons '.' rest)).takeAmount ha
  · cases ha
    exact h

theorem failsOnly_takeEnd (h : r.InStep slot count literals) :
    Outcome.FailsOnly (Refused slot count literals) r.takeEnd := by
  unfold takeEnd
  split
  · exact Outcome.failsOnly_ok _
  · next c rest hr =>
      split
      · exact Outcome.failsOnly_ok _
      · split
        · exact Outcome.failsOnly_ok _
        · have hoffset : (r.fused.length : Int) - r.rest.length =
              (r.fused.length - r.rest.length : Nat) := by
            have := h.length_le
            omega
          rw [h.slot_eq, hoffset]
          exact Outcome.failsOnly_error (.malformed rfl rfl rfl)

/-- The flags are looked for in the literal behind the slot only. -/
theorem exists_flags (s : Text) : ∃ (fill : Text) (alignment : Alignment) (sign : SignPolicy)
    (pretty zeroPad : Bool) (s₁ s₂ s₃ s₄ : Text), takeAlignment s = ((fill, alignment), s₁) ∧
      takeSign s₁ = (sign, s₂) ∧ takeFlag '#' s₂ = (pretty, s₃) ∧
      takeFlag '0' s₃ = (zeroPad, s₄) ∧ s₄ <:+ s := by
  rcases ha : takeAlignment s with ⟨⟨fill, alignment⟩, s₁⟩
  rcases hs : takeSign s₁ with ⟨sign, s₂⟩
  rcases hp : takeFlag '#' s₂ with ⟨pretty, s₃⟩
  rcases hz : takeFlag '0' s₃ with ⟨zeroPad, s₄⟩
  obtain ⟨part₁, h₁, -⟩ := aligned_of_takeAlignment ha
  obtain ⟨part₂, h₂, -⟩ := signed_of_takeSign hs
  obtain ⟨part₃, h₃, -⟩ := flagged_of_takeFlag hp
  obtain ⟨part₄, h₄, -⟩ := flagged_of_takeFlag hz
  refine ⟨fill, alignment, sign, pretty, zeroPad, s₁, s₂, s₃, s₄, rfl, hs, hp, hz, ?_⟩
  exact ⟨part₁ ++ part₂ ++ part₃ ++ part₄, by simp [h₁, h₂, h₃, h₄]⟩

theorem failsOnly_placement (h : r.InStep slot count literals) :
    Outcome.FailsOnly (Refused slot count literals) r.placement := by
  obtain ⟨fill, alignment, sign, pretty, zeroPad, s₁, s₂, s₃, s₄, ha, hs, hp, hz, hsuffix⟩ :=
    exists_flags r.rest
  have h₀ := h.drop hsuffix
  simp only [placement, ha, hs, hp, hz]
  refine (failsOnly_takeAmount h₀).bind ?_
  rintro ⟨width, r₁⟩ hw
  have h₁ := h₀.takeAmount hw
  refine (failsOnly_takePrecision h₁).bind ?_
  rintro ⟨precision, r₂⟩ hq
  have h₂ := h₁.takePrecision hq
  rcases hk : takeConversion r₂.rest with ⟨conversion, s₅⟩
  obtain ⟨part, hpart, -⟩ := lettered_of_takeConversion hk
  have h₃ := h₂.drop (hpart ▸ List.suffix_append part s₅)
  exact (failsOnly_takeEnd h₃).bind fun _ _ => Outcome.failsOnly_ok _

end Reading

/-- A slot is refused a placement for one of three reasons. -/
theorem failsOnly_read {slot count : Nat} {literal : Text} {following : List Text}
    (h : slot + 1 + following.length = count) :
    Outcome.FailsOnly (Refused slot count (literal :: following))
      (read slot count literal following) := by
  unfold read
  split
  · exact Outcome.failsOnly_ok _
  · next rest _ =>
      apply Reading.failsOnly_placement
      refine ⟨rfl, rfl, h, ?_, ?_, ?_⟩
      · simp
      · exact ⟨':' :: rest, List.mem_cons_self, List.suffix_cons ':' rest⟩
      · intro s hs
        exact List.mem_cons_of_mem _ hs
  · exact Outcome.failsOnly_ok _

end Placement

namespace Blueprint
open Placement

/-- The slot whose specifier cannot be read is one of those that follow. -/
theorem failsOnly_placementsFrom {count slot skip : Nat} {literals : List Text}
    (h : slot + literals.length = count) :
    Outcome.FailsOnly (fun e => ∃ i < count, Refused i count literals e)
      (placementsFrom count slot skip literals) := by
  induction literals generalizing slot skip with
  | nil =>
      rw [placementsFrom]
      exact Outcome.failsOnly_ok _
  | cons literal following ih =>
      rw [List.length_cons] at h
      have hnext : ∀ skip, Outcome.FailsOnly
          (fun e => ∃ i < count, Refused i count (literal :: following) e)
          (placementsFrom count (slot + 1) skip following) := by
        intro skip
        refine (ih (by omega)).mono ?_
        intro e he
        obtain ⟨i, hi, he⟩ := he
        exact ⟨i, hi, he.mono fun s hs => List.mem_cons_of_mem _ hs⟩
      cases skip with
      | succ skip => exact hnext skip
      | zero =>
          rw [placementsFrom]
          refine Outcome.FailsOnly.bind ?_ fun p _ => ?_
          · refine (failsOnly_read (by omega)).mono ?_
            intro e he
            exact ⟨slot, by omega, he⟩
          · exact (hnext _).bind fun _ _ => Outcome.failsOnly_ok _

/-- Literals are refused for lack of any, or for the specifier of one of their slots. -/
theorem failsOnly_ofSegments (segments : List Text) :
    Outcome.FailsOnly (fun e => (segments = [] ∧ e = .noSegment) ∨
      ∃ i < segments.length - 1, Refused i (segments.length - 1) segments e)
      (ofSegments segments) := by
  cases segments with
  | nil => exact Outcome.failsOnly_error (.inl ⟨rfl, rfl⟩)
  | cons head literals =>
      rw [ofSegments]
      refine Outcome.FailsOnly.bind ?_ fun _ _ => Outcome.failsOnly_ok _
      refine (failsOnly_placementsFrom (Nat.zero_add _)).mono ?_
      intro e he
      obtain ⟨i, hi, he⟩ := he
      exact .inr ⟨i, hi, he.mono fun s hs => List.mem_cons_of_mem _ hs⟩

end Blueprint

end SlotText
