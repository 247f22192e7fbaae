import SlotText.Proofs.Specifier.Mended
import SlotText.Proofs.Specifier.Fused

/-!
# Where reading stops

A specifier that is refused as malformed stops at one character. What has been read up to there is
a specifier but for its end: with a semicolon in the place of the character it is read, and what
follows the semicolon is the tail. So the offset in the diagnostic is the first position at which
the literals do not go on as a specifier can, in whichever literal that position lies.
-/
namespace SlotText

/-- A diagnostic that becomes a fault names a slot that can be one. -/
theorem Diagnostic.exists_of_refuse_located {α : Type} {d : Diagnostic} {slot : Int}
    {offset : Option Int} {f : Fault}
    (h : (Outcome.refuse (d.located (some slot) offset) : Outcome α) = .error (.fault f)) :
    ∃ (i : Nat) (d' : Diagnostic), slot = i ∧ d.located (some slot) offset = .ok d' ∧
      f = .ofDiagnostic d' ∧ d'.code = d.code ∧ d'.slot = some i ∧
      d'.offset = offset.map Int.toNat := by
  rcases d.located_cases (some slot) offset with ⟨i, o, hi, ho, hd⟩ | ⟨e, he, hne⟩
  · rw [hd] at h
    cases h
    obtain ⟨i, rfl, rfl⟩ := Option.map_eq_some_iff.mp hi.symm
    refine ⟨i, _, rfl, hd, rfl, rfl, rfl, ?_⟩
    rw [ho, Option.map_map]
    exact Option.map_id'.symm
  · rw [he] at h
    cases h
    exact absurd rfl (hne f)

namespace Placement
open Grammar

namespace Reading

variable {r : Reading}

/-- A failure that does not say that a specifier is malformed. -/
def Formed (e : Failure) : Prop := ∀ f, e = .fault f → f.category ≠ .malformedSpecifier

theorem failsOnly_takeAmount_formed (r : Reading) : Outcome.FailsOnly Formed r.takeAmount := by
  obtain ⟨ds, rest, hr, hds, hrest⟩ := exists_digits r.rest
  by_cases hne : ds = []
  · subst hne
    cases rest with
    | nil =>
        rw [takeAmount_of_end hr]
        refine Outcome.FailsOnly.bind ?_ fun _ _ => Outcome.failsOnly_ok _
        unfold absorb
        split
        · intro e he f hf
          subst hf
          obtain ⟨i, d, -, -, rfl, hcode, -, -⟩ := Diagnostic.exists_of_refuse_located he
          rw [Fault.ofDiagnostic, hcode]
          exact nofun
        · exact Outcome.failsOnly_ok _
    | cons c rest =>
        rw [takeAmount_of_other hr hrest]
        exact Outcome.failsOnly_ok _
  · rw [takeAmount_of_digits hr hne hds hrest]
    refine Outcome.FailsOnly.bind ?_ fun _ _ => Outcome.failsOnly_ok _
    unfold Numeral.read
    split
    · exact Outcome.failsOnly_error fun f hf => nomatch hf
    · exact Outcome.failsOnly_ok _

theorem failsOnly_takePrecision_formed (r : Reading) :
    Outcome.FailsOnly Formed r.takePrecision := by
  unfold takePrecision
  split
  · exact failsOnly_takeAmount_formed _
  · exact Outcome.failsOnly_ok _

/-- Only the last stage says that a specifier is malformed. -/
theorem failsOnly_specifier_formed (r : Reading) : Outcome.FailsOnly Formed r.specifier := by
  unfold specifier
  refine (failsOnly_takeAmount_formed _).bind fun _ _ => ?_
  refine (failsOnly_takePrecision_formed _).bind fun _ _ => ?_
  exact Outcome.failsOnly_ok _

/-- The last stage says so of a character that does not end a specifier. -/
theorem exists_of_takeEnd_eq_fault {f : Fault} (h : r.takeEnd = .error (.fault f)) :
    ∃ (c : Char) (rest : Text) (slot : Nat) (d : Diagnostic), r.rest = c :: rest ∧
      Text.isBlank c = false ∧ c ≠ ';' ∧ r.slot = slot ∧
      Diagnostic.malformedSpecifier (.position slot) (r.fused.length - r.rest.length)
        (Text.quoted [c]) = .ok d ∧ f = .ofDiagnostic d ∧ d.slot = some slot ∧
      d.offset = some (r.fused.length - r.rest.length) := by
  unfold takeEnd at h
  split at h
  · cases h
  · next c rest hr =>
      split_ifs at h with hblank hc
      obtain ⟨slot, d, hslot, hd, hf, -, hname, hoffset⟩ := Diagnostic.exists_of_refuse_located h
      refine ⟨c, rest, slot, d, hr, Bool.eq_false_iff.mpr hblank, hc, hslot, ?_, hf, hname, ?_⟩
      · rw [← hslot]
        exact hd
      · rw [hoffset, Option.map_some]
        congr 1
        omega

end Reading

theorem read_eq_error {slot count : Int} {literal : Text} {following : List Text} {e : Failure}
    (h : read slot count literal following = .error e) :
    ∃ rest : Text, literal = ':' :: rest ∧ ¬rest.Begins (· = ':') ∧
      Reading.placement { slot, count, fused := ':' :: rest, rest, following } = .error e := by
  by_cases hc : literal.Begins (· = ':')
  · obtain ⟨rest, rfl⟩ := Text.begins_eq_iff.mp hc
    by_cases hd : rest.Begins (· = ':')
    · obtain ⟨rest, rfl⟩ := Text.begins_eq_iff.mp hd
      cases h
    · rw [read_of_colon hd] at h
      exact ⟨rest, rfl, hd, h⟩
  · rw [read_of_plain hc] at h
    cases h

end Placement

/-- A character in the literals behind a slot: the literals before its own, what stands before and
behind it in its own, and the literals after its own. -/
structure Halt extends Grammar.Place where
  found : Char
  rest : Text
  left : List Text
  deriving DecidableEq, Repr

namespace Halt
open Grammar Placement

/-- All the literals. -/
def literals (h : Halt) : List Text := h.passed ++ (h.front ++ h.found :: h.rest) :: h.left

/-- The literals up to the one of the character, as one text. -/
def fused (h : Halt) : Text := (h.passed ++ [h.front ++ h.found :: h.rest]).flatten

/-- The position of the character in that text. -/
def offset (h : Halt) : Nat := h.text.length

/-- The literals with one of them cut before the character, and a semicolon with some text put
there. -/
def mended (h : Halt) (tail : Text) : List Text := h.passed ++ (h.front ++ ';' :: tail) :: h.left

/-- The reader goes through a specifier up to its end, and then it stands before the character and
has fused the literals up to there. -/
def Reached (h : Halt) (slot count : Int) (spec : Specifier) : Prop :=
  ∃ (rest : Text) (following : List Text) (r : Reading),
    h.literals = (':' :: rest) :: following ∧
    Reading.specifier { slot, count, fused := ':' :: rest, rest, following } = .ok (spec, r) ∧
    r.fused = h.fused ∧ r.rest = h.found :: h.rest ∧ r.following = h.left ∧
    r.absorbed = h.passed.length

variable (h : Halt)

theorem fused_eq : h.fused = h.text ++ h.found :: h.rest := by
  simp [fused, Place.text]

theorem flatten_literals : h.literals.flatten = h.fused ++ h.left.flatten := by
  simp [literals, fused]

theorem offset_lt : h.offset < h.fused.length := by
  rw [fused_eq, offset, List.length_append, List.length_cons]
  omega

theorem fused_offset : h.fused[h.offset]? = some h.found := by
  rw [fused_eq, offset, List.getElem?_append_right (Nat.le_refl _), Nat.sub_self]
  rfl

end Halt

namespace Placement
open Grammar

variable {slot count : Int} {following : List Text}

/-- A character that is left when a specifier has been read up to its end is a halt. The literals
mended there hold the same specifier with another tail. -/
theorem exists_reached {text rest : Text} {spec : Specifier} {r : Reading} {c : Char}
    (hspecifier : Reading.specifier { slot, count, fused := ':' :: text, rest := text, following } =
      .ok (spec, r)) (hr : r.rest = c :: rest) (hc : ¬text.Begins (· = ':')) :
    ∃ halt : Halt, halt.found = c ∧ (':' :: text) :: following = halt.literals ∧
      halt.Reached slot count spec ∧ r.slot = slot ∧
      r.fused.length = halt.offset + r.rest.length ∧ 1 ≤ halt.offset ∧
      halt.passed.length = spec.width.absorbed + spec.precision.absorbed ∧
      ∀ tail : Text, ¬tail.Begins IsAlignment → ∃ literal following',
        halt.mended tail = literal :: following' ∧
        ∀ slot count, read slot count literal following' = .ok (.ofSpecifier slot spec tail) := by
  obtain ⟨⟨g, hunclosed, hwidth, hprecision⟩, hslot, habsorbed, hfused⟩ :=
    Reading.unclosed_of_specifier hspecifier
  let b : Ahead := ⟨c :: rest, r.following⟩
  have hahead : ahead r = b := by rw [ahead, hr]
  rw [hahead] at hunclosed
  obtain ⟨p, hp, hlength, hmended⟩ := hunclosed.exists_mended
  -- The place is seen from behind the colon, and the halt from before it.
  let q := p.prepend [':']
  let halt : Halt := ⟨q, c, rest, r.following⟩
  have hpassed : halt.passed.length = spec.width.absorbed + spec.precision.absorbed :=
    (p.length_passed_prepend [':']).trans hlength
  have hliterals : (':' :: text) :: following = halt.literals := by
    have hq : q.before b = ⟨':' :: text, following⟩ := by
      rw [Place.before_prepend, ← hp]
      rfl
    have hbefore := q.literals_before b
    rwa [hq] at hbefore
  have hfused' : r.fused = halt.fused := by
    have hall : r.fused ++ r.following.flatten = ((':' :: text) :: following).flatten := hfused
    rw [hliterals] at hall
    exact List.append_cancel_right (hall.trans halt.flatten_literals)
  refine ⟨halt, rfl, hliterals,
    ⟨text, following, r, hliterals.symm, hspecifier, hfused', hr, rfl, ?_⟩, hslot, ?_, ?_, hpassed,
    fun tail htail => ?_⟩
  · rw [habsorbed, Nat.zero_add, hpassed]
  · rw [hfused', Halt.fused_eq, List.length_append, hr]
    rfl
  · change 1 ≤ q.text.length
    rw [Place.text_prepend, List.length_append, List.length_singleton]
    exact Nat.le_add_right 1 _
  · have hbefore := q.literals_before (b.mended tail)
    rw [Place.before_prepend] at hbefore
    have htext : text = (p.before b).text := by
      rw [← hp]
      rfl
    rw [htext] at hc
    have hcolon := Place.not_begins_mended hc (by decide) tail
    have hspecified := (hmended tail htail).specified (.semicolon tail)
    exact ⟨_, _, hbefore.symm, fun slot count => (read_of_colon hcolon).trans
      (placement_of_specified rfl hspecified hwidth hprecision)⟩

/-- A slot whose specifier is malformed has a halt behind it, and that is what the diagnostic
reports. -/
theorem exists_halt {literal : Text} {f : Fault}
    (h : read slot count literal following = .error (.fault f))
    (hf : f.category = .malformedSpecifier) :
    ∃ (i : Nat) (halt : Halt) (spec : Specifier) (d : Diagnostic), slot = i ∧
      literal :: following = halt.literals ∧ halt.Reached slot count spec ∧
      Text.isBlank halt.found = false ∧ halt.found ≠ ';' ∧ 1 ≤ halt.offset ∧
      Diagnostic.malformedSpecifier (.position i) halt.offset (Text.quoted [halt.found]) = .ok d ∧
      f = .ofDiagnostic d ∧ d.slot = some i ∧ d.offset = some halt.offset ∧
      halt.passed.length = spec.width.absorbed + spec.precision.absorbed ∧
      ∀ tail : Text, ¬tail.Begins IsAlignment → ∃ literal' following',
        halt.mended tail = literal' :: following' ∧
        ∀ slot count, read slot count literal' following' = .ok (.ofSpecifier slot spec tail) := by
  obtain ⟨text, rfl, hc, h⟩ := read_eq_error h
  rw [Reading.placement_eq rfl] at h
  rcases Outcome.bind_eq_error.mp h with h | ⟨⟨spec, r⟩, hspecifier, h⟩
  · exact absurd hf (Reading.failsOnly_specifier_formed _ _ h f rfl)
  · have hend := (Outcome.bind_eq_error_iff fun tail => ⟨_, rfl⟩).mp h
    obtain ⟨c, rest, i, d, hr, hblank, hsemicolon, hi, hd, hfd, hname, hoffset⟩ :=
      Reading.exists_of_takeEnd_eq_fault hend
    obtain ⟨halt, rfl, hliterals, hreached, hslot, hlength, hpos, hpassed, hmended⟩ :=
      exists_reached hspecifier hr hc
    dsimp only at hi hd hoffset
    have hcast : (r.fused.length : Int) - r.rest.length = halt.offset := by omega
    have hnat : r.fused.length - r.rest.length = halt.offset := Nat.sub_eq_of_eq_add hlength
    rw [hcast] at hd
    rw [hnat] at hoffset
    exact ⟨i, halt, spec, d, hslot.symm.trans hi, hliterals, hreached, hblank, hsemicolon, hpos, hd,
      hfd, hname, hoffset, hpassed, hmended⟩

end Placement

namespace Blueprint
open Grammar

theorem drop_of_literalAfter? {segments following : List Text} {literal : Text} {slot : Nat}
    (h : literalAfter? segments slot = some (literal, following)) :
    segments.drop (slot + 1) = literal :: following := by
  have hnat : ((slot : Int) + 1).toNat = slot + 1 := by omega
  rw [literalAfter?] at h
  simp only [show (0 : Int) ≤ (slot : Int) + 1 by omega, if_true, hnat] at h
  split at h
  · cases h
  · next hdrop =>
      cases h
      exact hdrop

/-- A malformed specifier is reported with the position of the first character that cannot continue
it. That position lies in the last literal that was fused, behind the colon, and holds neither a
blank nor a semicolon. With a semicolon put there, what was read before is the specifier, the slots
that were absorbed are absorbed again, and the text behind the semicolon is the tail. -/
theorem placementAt_malformed {segments : List Text} {i : Int} {f : Fault}
    (h : placementAt segments i = .error (.fault f)) (hf : f.category = .malformedSpecifier) :
    ∃ (slot : Nat) (halt : Halt) (spec : Specifier),
      i = slot ∧ segments.drop (slot + 1) = halt.literals ∧
      halt.Reached slot (segments.length - 1) spec ∧
      (∃ d, Diagnostic.malformedSpecifier (.position slot) halt.offset
        (Text.quoted [halt.found]) = .ok d ∧ f = .ofDiagnostic d) ∧
      f.slot = some slot ∧ f.offset = some halt.offset ∧
      1 ≤ halt.offset ∧ halt.offset < halt.fused.length ∧
      halt.fused[halt.offset]? = some halt.found ∧
      Text.isBlank halt.found = false ∧ halt.found ≠ ';' ∧
      halt.passed.length = spec.width.absorbed + spec.precision.absorbed ∧
      ∀ tail : Text, ¬tail.Begins IsAlignment →
        placementAt (segments.take (slot + 1) ++ halt.mended tail) slot =
          .ok (.ofSpecifier slot spec tail, (slot + 1 + halt.passed.length : Nat)) := by
  rw [placementAt] at h
  split at h
  · split at h <;> cases h
  · next literal following hafter =>
      have hread := (Outcome.bind_eq_error_iff fun p => ⟨_, rfl⟩).mp h
      obtain ⟨slot, halt, spec, d, rfl, hliterals, hreached, hblank, hsemicolon, hpos, hd, rfl,
        hname, hoffset, hlength, hmended⟩ := Placement.exists_halt hread hf
      have hdrop := drop_of_literalAfter? hafter
      have hlt : slot + 1 < segments.length := by
        apply Nat.lt_of_not_le
        intro hle
        rw [List.drop_eq_nil_of_le hle] at hdrop
        cases hdrop
      refine ⟨slot, halt, spec, rfl, hdrop.trans hliterals, hreached, ⟨d, hd, rfl⟩, hname, hoffset,
        hpos, halt.offset_lt, halt.fused_offset, hblank, hsemicolon, hlength, fun tail htail => ?_⟩
      obtain ⟨literal', following', hl, hread'⟩ := hmended tail htail
      have hdrop' : (segments.take (slot + 1) ++ halt.mended tail).drop (slot + 1) =
          literal' :: following' := by
        rw [← hl]
        apply List.drop_left'
        rw [List.length_take]
        omega
      rw [placementAt_eq hdrop', hread', Outcome.ok_bind, Placement.consumed,
        Placement.absorbed_ofSpecifier, ← hlength]
      congr 2
      omega

/-- Width and precision are deferred, and the letter of the conversion is followed by another. -/
theorem placementAt_malformed_letter :
    ∃ f, placementAt ["".toList, ":*^+#0".toList, ".".toList, "xq y".toList] 0 =
        .error (.fault f) ∧ f.category = .malformedSpecifier ∧ f.offset = some 8 ∧
      ∃ (halt : Halt) (spec : Specifier),
        [":*^+#0".toList, ".".toList, "xq y".toList] = halt.literals ∧ halt.offset = 8 ∧
        placementAt (["".toList] ++ halt.mended "!".toList) 0 =
          .ok (.ofSpecifier 0 spec "!".toList, (1 + halt.passed.length : Nat)) := by
  obtain ⟨f, h, hf, hat⟩ : ∃ f,
      placementAt ["".toList, ":*^+#0".toList, ".".toList, "xq y".toList] 0 = .error (.fault f) ∧
        f.category = .malformedSpecifier ∧ f.offset = some 8 := ⟨_, rfl, rfl, rfl⟩
  obtain ⟨slot, halt, spec, hslot, hliterals, -, -, -, hoffset, -, -, -, -, -, -, hmended⟩ :=
    placementAt_malformed h hf
  cases Int.ofNat.inj hslot
  have htail : ¬Text.Begins IsAlignment "!".toList := ofSymbol?_eq_none_iff.mp rfl
  have height : halt.offset = 8 := Option.some.inj (hoffset.symm.trans hat)
  exact ⟨f, h, hf, hat, halt, spec, hliterals, height, hmended _ htail⟩

end Blueprint

end SlotText
