import SlotText.Proofs.Specifier.Grammar
import SlotText.Proofs.Outcome
import Mathlib.Tactic.SplitIfs

/-!
# The stages of reading

Each part of a specifier has a stage of the reader. A stage takes exactly the part that the rule
of the grammar describes: what it takes is a part by the rule, and a part by the rule is what it
takes. The first halves are named after the rule, the second ones after the stage.
-/
namespace SlotText.Grammar
open Placement Placement.Reading

theorem ofSymbol?_eq_none_iff {c : Char} : Alignment.ofSymbol? c = none ↔ ¬IsAlignment c := by
  constructor
  · rintro h ⟨a, rfl⟩
    rw [Alignment.ofSymbol?_symbol] at h
    cases h
  · intro h
    cases ha : Alignment.ofSymbol? c with
    | none => rfl
    | some a => exact absurd ⟨a, Alignment.eq_symbol_of_ofSymbol? ha⟩ h

theorem signOfSymbol?_eq_none_iff {c : Char} : SignPolicy.ofSymbol? c = none ↔ ¬IsSign c := by
  unfold SignPolicy.ofSymbol? IsSign
  split_ifs with hp hm
  · simp [hp]
  · simp [hm]
  · simp [hp, hm]

theorem conversionOfSymbol?_eq_none_iff {c : Char} :
    Conversion.ofSymbol? c = none ↔ ¬IsLetter c := by
  constructor
  · rintro h ⟨k, hk⟩
    have hn : k ≠ .natural := by
      rintro rfl
      cases hk
    obtain ⟨s, hs, ho⟩ := Conversion.ofSymbol?_symbol hn
    cases hs.symm.trans hk
    cases h.symm.trans ho
  · intro h
    cases hk : Conversion.ofSymbol? c with
    | none => rfl
    | some k => exact absurd ⟨k, Conversion.symbol_of_ofSymbol? hk⟩ h

theorem aligned_of_takeAlignment {s fill rest : Text} {a : Alignment}
    (h : takeAlignment s = ((fill, a), rest)) :
    ∃ part, s = part ++ rest ∧ Aligned part fill a rest := by
  revert h
  fun_cases takeAlignment s with
  | case1 =>
      intro h
      cases h
      exact ⟨[], rfl, .absent id id⟩
  | case2 c a ha =>
      intro h
      cases h
      rw [Alignment.eq_symbol_of_ofSymbol? ha]
      exact ⟨[a.symbol], rfl, .bare a id⟩
  | case3 c hc =>
      intro h
      cases h
      exact ⟨[], rfl, .absent (ofSymbol?_eq_none_iff.mp hc) id⟩
  | case4 c d rest a ha =>
      intro h
      cases h
      rw [Alignment.eq_symbol_of_ofSymbol? ha]
      exact ⟨[c, a.symbol], rfl, .filled c a rest⟩
  | case5 c d rest hd a ha =>
      intro h
      cases h
      rw [Alignment.eq_symbol_of_ofSymbol? ha]
      exact ⟨[a.symbol], rfl, .bare a (ofSymbol?_eq_none_iff.mp hd)⟩
  | case6 c d rest hd hc =>
      intro h
      cases h
      exact ⟨[], rfl, .absent (ofSymbol?_eq_none_iff.mp hc) (ofSymbol?_eq_none_iff.mp hd)⟩

theorem takeAlignment_of_aligned {part fill rest : Text} {a : Alignment}
    (h : Aligned part fill a rest) : takeAlignment (part ++ rest) = ((fill, a), rest) := by
  cases h with
  | filled c a rest => simp [takeAlignment, Alignment.ofSymbol?_symbol]
  | bare a hn =>
      cases rest with
      | nil => simp [takeAlignment, Alignment.ofSymbol?_symbol]
      | cons d rest =>
          have hd : Alignment.ofSymbol? d = none := ofSymbol?_eq_none_iff.mpr hn
          simp [takeAlignment, Alignment.ofSymbol?_symbol, hd]
  | absent hn ht =>
      match rest with
      | [] => rfl
      | [c] =>
          have hc : Alignment.ofSymbol? c = none := ofSymbol?_eq_none_iff.mpr hn
          simp [takeAlignment, hc]
      | c :: d :: rest =>
          have hc : Alignment.ofSymbol? c = none := ofSymbol?_eq_none_iff.mpr hn
          have hd : Alignment.ofSymbol? d = none := ofSymbol?_eq_none_iff.mpr ht
          simp [takeAlignment, hc, hd]

theorem signed_of_takeSign {s rest : Text} {p : SignPolicy} (h : takeSign s = (p, rest)) :
    ∃ part, s = part ++ rest ∧ Signed part p rest := by
  revert h
  fun_cases takeSign s with
  | case1 =>
      intro h
      cases h
      exact ⟨[], rfl, .absent id⟩
  | case2 c rest p hp =>
      intro h
      cases h
      unfold SignPolicy.ofSymbol? at hp
      split_ifs at hp with hplus hminus
      · cases hp
        exact ⟨['+'], by rw [hplus]; rfl, .plus rest⟩
      · cases hp
        exact ⟨['-'], by rw [hminus]; rfl, .blank rest⟩
  | case3 c rest hc =>
      intro h
      cases h
      exact ⟨[], rfl, .absent (signOfSymbol?_eq_none_iff.mp hc)⟩

theorem takeSign_of_signed {part rest : Text} {p : SignPolicy} (h : Signed part p rest) :
    takeSign (part ++ rest) = (p, rest) := by
  cases h with
  | plus rest => rfl
  | blank rest => rfl
  | absent hn =>
      cases rest with
      | nil => rfl
      | cons c rest =>
          have hc : SignPolicy.ofSymbol? c = none := signOfSymbol?_eq_none_iff.mpr hn
          simp [takeSign, hc]

theorem flagged_of_takeFlag {flag : Char} {s rest : Text} {b : Bool}
    (h : takeFlag flag s = (b, rest)) : ∃ part, s = part ++ rest ∧ Flagged flag part b rest := by
  revert h
  fun_cases takeFlag flag s with
  | case1 =>
      intro h
      cases h
      exact ⟨[], rfl, .absent id⟩
  | case2 rest =>
      intro h
      cases h
      exact ⟨[flag], rfl, .present rest⟩
  | case3 c rest hc =>
      intro h
      cases h
      exact ⟨[], rfl, .absent hc⟩

theorem takeFlag_of_flagged {flag : Char} {part rest : Text} {b : Bool}
    (h : Flagged flag part b rest) : takeFlag flag (part ++ rest) = (b, rest) := by
  cases h with
  | present rest => simp [takeFlag]
  | absent hn =>
      cases rest with
      | nil => rfl
      | cons c rest =>
          have hc : c ≠ flag := hn
          simp [takeFlag, hc]

theorem lettered_of_takeConversion {s rest : Text} {k : Conversion}
    (h : takeConversion s = (k, rest)) : ∃ part, s = part ++ rest ∧ Lettered part k rest := by
  revert h
  fun_cases takeConversion s with
  | case1 =>
      intro h
      cases h
      exact ⟨[], rfl, .absent id⟩
  | case2 c rest k hk =>
      intro h
      cases h
      have hs := Conversion.symbol_of_ofSymbol? hk
      refine ⟨k.symbol, by rw [hs]; rfl, .letter rest ?_⟩
      rintro rfl
      cases hs
  | case3 c rest hc =>
      intro h
      cases h
      exact ⟨[], rfl, .absent (conversionOfSymbol?_eq_none_iff.mp hc)⟩

theorem takeConversion_of_lettered {part rest : Text} {k : Conversion}
    (h : Lettered part k rest) : takeConversion (part ++ rest) = (k, rest) := by
  cases h with
  | letter rest hn =>
      obtain ⟨s, hs, ho⟩ := Conversion.ofSymbol?_symbol hn
      simp [takeConversion, hs, ho]
  | absent hn =>
      cases rest with
      | nil => rfl
      | cons c rest =>
          have hc : Conversion.ofSymbol? c = none := conversionOfSymbol?_eq_none_iff.mpr hn
          simp [takeConversion, hc]

theorem takeEnd_eq_ok_iff {r : Reading} {tail : Text} :
    r.takeEnd = .ok tail ↔ ∃ part, r.rest = part ++ tail ∧ Closed part tail := by
  constructor
  · intro h
    unfold takeEnd at h
    split at h
    · next hr =>
        cases h
        exact ⟨[], hr, .finish⟩
    · next c rest hr =>
        split_ifs at h with hb hs
        · cases h
          exact ⟨[], hr, .blank rest hb⟩
        · cases h
          exact ⟨[';'], by rw [hr, hs]; rfl, .semicolon tail⟩
        · exact absurd h (Outcome.refuse_ne_ok _ _)
  · rintro ⟨part, hr, hc⟩
    unfold takeEnd
    cases hc with
    | finish => simp [hr]
    | blank rest hb => simp [hr, hb]
    | semicolon tail =>
        have hb : Text.isBlank ';' = false := by decide
        simp [hr, hb]

theorem exists_digits (s : Text) :
    ∃ ds rest, s = ds ++ rest ∧ (∀ c ∈ ds, IsDigit c) ∧ ¬rest.Begins IsDigit := by
  induction s with
  | nil => exact ⟨[], [], rfl, by simp, id⟩
  | cons c s ih =>
      by_cases hc : IsDigit c
      · obtain ⟨ds, rest, rfl, hds, hrest⟩ := ih
        exact ⟨c :: ds, rest, rfl, List.forall_mem_cons.mpr ⟨hc, hds⟩, hrest⟩
      · exact ⟨[], c :: s, rfl, by simp, hc⟩

theorem takeDigits_append {ds rest : Text} (hds : ∀ c ∈ ds, IsDigit c)
    (hrest : ¬rest.Begins IsDigit) : takeDigits (ds ++ rest) = (ds, rest) := by
  have hnone : rest.takeWhile Numeral.isDigit = [] ∧ rest.dropWhile Numeral.isDigit = rest := by
    cases rest with
    | nil => exact ⟨rfl, rfl⟩
    | cons c rest =>
        have hc : Numeral.isDigit c = false := Bool.eq_false_iff.mpr hrest
        simp [hc]
  unfold takeDigits
  rw [List.takeWhile_append_of_pos hds, List.dropWhile_append_of_pos hds, hnone.1, hnone.2,
    List.append_nil]

theorem takeAmount_of_digits {r : Reading} {ds rest : Text} (hr : r.rest = ds ++ rest)
    (hne : ds ≠ []) (hds : ∀ c ∈ ds, IsDigit c) (hrest : ¬rest.Begins IsDigit) :
    r.takeAmount = (Numeral.read ds >>= fun n => .ok (.given n, { r with rest := rest })) := by
  simp only [takeAmount, hr, takeDigits_append hds hrest]
  exact if_pos hne

theorem takeAmount_of_other {r : Reading} {c : Char} {rest : Text} (hr : r.rest = c :: rest)
    (hc : ¬IsDigit c) : r.takeAmount = .ok (.given 0, r) := by
  have hnone : ∀ d ∈ ([] : Text), IsDigit d := by simp
  have hd : takeDigits (c :: rest) = ([], c :: rest) := takeDigits_append hnone hc
  simp only [takeAmount, hr, hd]
  rfl

theorem takeAmount_of_end {r : Reading} (hr : r.rest = []) :
    r.takeAmount = (r.absorb >>= fun r => .ok (.deferred, r)) := by
  simp only [takeAmount, hr]
  rfl

end SlotText.Grammar
