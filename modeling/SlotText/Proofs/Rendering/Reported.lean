import SlotText.Proofs.Rendering.BySlot
import SlotText.Diagnostic.Output
import SlotText.Proofs.Value.Legible

/-!
# What the report of a fault consists of

The message of a fault is put together from fixed texts, numbers and what a user has written: the
character that a specifier cannot go on with, the target of a reference, and the value of a slot
that is to be an amount. The character is quoted and the values are shown, so that all of it stands
on one line. The report then has the lines that it is made of and no other: nothing that stands in a
template or in a value adds a line to it or writes over one.
-/
namespace SlotText

open Failure (NoFault)
open Outcome (FailsOnly Yields failsOnly_ok failsOnly_error yields_ok yields_refuse)
open Text (Inline inline_append inline_literal literal_ne_nil)

/-- The diagnostic names a slot and gives advice, and its texts stand on one line. -/
structure Diagnostic.Presentable (d : Diagnostic) : Prop where
  message : d.message.Inline
  slot : d.slot.isSome = true
  hint : ∃ s, d.hint = some s ∧ s ≠ [] ∧ s.Inline
  path : d.path ≠ some []

/-- A fault, if it is one, has a presentable diagnostic. -/
def Failure.Presentable (e : Failure) : Prop :=
  ∀ f, e = .fault f → ∃ d : Diagnostic, f = .ofDiagnostic d ∧ d.Presentable

theorem Failure.NoFault.presentable {e : Failure} (h : e.NoFault) : e.Presentable :=
  fun f hf => absurd hf (h f)

variable {α : Type} {s : Text}

theorem Reporter.inline_pathText (path : List Int) : Inline (pathText path) := by
  refine Text.inline_intercalate (Text.inline_literal _ rfl) fun s hs => ?_
  obtain ⟨i, -, rfl⟩ := List.mem_map.mp hs
  exact Numeral.inline_ofInt i

namespace Diagnostic

/-- Locating a diagnostic gives it a slot, or fails without a fault. -/
theorem presentable_located {d : Diagnostic} {slot : Int} {offset : Option Int}
    (hmessage : d.message.Inline) (hhint : ∃ s, d.hint = some s ∧ s ≠ [] ∧ s.Inline)
    (hpath : d.path ≠ some []) :
    FailsOnly Failure.Presentable (Outcome.refuse (d.located (some slot) offset) : Outcome α) := by
  intro e he
  rcases d.located_cases (some slot) offset with ⟨i, o, hslot, -, hd⟩ | ⟨e', he', hnone⟩
  · rw [hd] at he
    cases he
    rintro f ⟨⟩
    refine ⟨_, rfl, hmessage, ?_, hhint, hpath⟩
    obtain ⟨n, rfl, -⟩ := Option.map_eq_some_iff.mp hslot.symm
    rfl
  · rw [he'] at he
    cases he
    exact hnone.presentable

/-- A message is put together from texts that stand on one line, or one of them fails. -/
theorem presentable_bind {x : Outcome Text} {f : Text → Outcome Diagnostic}
    (hx : Yields Inline NoFault x) (hf : ∀ s : Text, s.Inline →
      FailsOnly Failure.Presentable (Outcome.refuse (f s) : Outcome α)) :
    FailsOnly Failure.Presentable (Outcome.refuse (x >>= f) : Outcome α) := by
  rw [Outcome.refuse_bind]
  have hfails := hx.failsOnly.mono fun _ => NoFault.presentable
  exact hfails.bind fun s hs => hf s (hx.result s hs)

theorem presentable_missingArgument (slot count : Index) :
    FailsOnly Failure.Presentable (Outcome.refuse (missingArgument slot count) : Outcome α) := by
  refine presentable_bind slot.yields_write fun s hs => ?_
  refine presentable_bind count.yields_write fun n hn => ?_
  refine presentable_located ?_ ⟨_, rfl, literal_ne_nil _ _, inline_literal _ rfl⟩ nofun
  simp only [inline_append, hs, hn, and_true]
  exact ⟨⟨inline_literal _ rfl, inline_literal _ rfl⟩, inline_literal _ rfl⟩

theorem presentable_invalidReference (slot count : Index) {target : Outcome Text}
    (htarget : Yields Inline NoFault target) :
    FailsOnly Failure.Presentable
      (Outcome.refuse (invalidReference slot target count) : Outcome α) := by
  refine presentable_bind slot.yields_write fun s hs => ?_
  refine presentable_bind htarget fun shown hshown => ?_
  refine presentable_bind count.yields_write fun n hn => ?_
  refine presentable_located ?_ ⟨_, rfl, literal_ne_nil _ _, inline_literal _ rfl⟩ nofun
  simp only [inline_append, hs, hshown, hn, and_true]
  exact ⟨⟨⟨inline_literal _ rfl, inline_literal _ rfl⟩, inline_literal _ rfl⟩, by decide⟩

variable {path : List Int}

/-- The texts around the slot and the advice stand on one line; so does every path. -/
theorem presentable_closedChain (code : Code) {before behind advice : Text}
    (hbefore : before.Inline) (hbehind : behind.Inline) (hne : advice ≠ [])
    (hadvice : advice.Inline) (slot : Index) (hpath : path ≠ []) :
    FailsOnly Failure.Presentable (Outcome.refuse
      (closedChain code before behind advice slot (path.map .position)) : Outcome α) := by
  rw [closedChain, Supply.chain_position, Outcome.ok_bind]
  refine presentable_bind slot.yields_write fun s hs => ?_
  refine presentable_located ?_ ⟨_, rfl, hne, hadvice⟩ (by simpa)
  simp only [inline_append, hbefore, hs, hbehind, Reporter.inline_pathText, and_true]

theorem presentable_selfReference (slot : Index) (hpath : path ≠ []) :
    FailsOnly Failure.Presentable
      (Outcome.refuse (selfReference slot (path.map .position)) : Outcome α) :=
  presentable_closedChain _ (inline_literal _ rfl) (inline_literal _ rfl) (literal_ne_nil _ _)
    (inline_literal _ rfl) slot hpath

theorem presentable_referenceCycle (slot : Index) (hpath : path ≠ []) :
    FailsOnly Failure.Presentable
      (Outcome.refuse (referenceCycle slot (path.map .position)) : Outcome α) :=
  presentable_closedChain _ (inline_literal _ rfl) (inline_literal _ rfl) (literal_ne_nil _ _)
    (inline_literal _ rfl) slot hpath

theorem presentable_invalidAmount (code : Code) {opening advice : Text} (hopening : opening.Inline)
    (hne : advice ≠ []) (hadvice : advice.Inline) (slot : Index) (hs : s.Inline) :
    FailsOnly Failure.Presentable
      (Outcome.refuse (invalidAmount code opening advice slot s) : Outcome α) := by
  refine presentable_bind slot.yields_write fun n hn => ?_
  refine presentable_located ?_ ⟨_, rfl, hne, hadvice⟩ nofun
  simp only [inline_append, hopening, hs, hn, true_and, and_true]
  exact ⟨inline_literal _ rfl, inline_literal _ rfl⟩

theorem presentable_invalidWidth (slot : Index) (hs : s.Inline) :
    FailsOnly Failure.Presentable (Outcome.refuse (invalidWidth slot s) : Outcome α) :=
  presentable_invalidAmount _ (inline_literal _ rfl) (literal_ne_nil _ _) (inline_literal _ rfl)
    slot hs

theorem presentable_invalidPrecision (slot : Index) (hs : s.Inline) :
    FailsOnly Failure.Presentable (Outcome.refuse (invalidPrecision slot s) : Outcome α) :=
  presentable_invalidAmount _ (inline_literal _ rfl) (literal_ne_nil _ _) (inline_literal _ rfl)
    slot hs

theorem presentable_malformedSpecifier (slot : Index) (offset : Int) (hs : s.Inline) :
    FailsOnly Failure.Presentable
      (Outcome.refuse (malformedSpecifier slot offset s) : Outcome α) := by
  refine presentable_bind slot.yields_write fun n hn => ?_
  refine presentable_located ?_ ⟨_, rfl, ?_, ?_⟩ nofun
  · simp only [inline_append, hs, hn, and_true]
    exact ⟨inline_literal _ rfl, inline_literal _ rfl⟩
  · exact List.append_ne_nil_of_left_ne_nil (literal_ne_nil _ _) _
  · exact .append (inline_literal _ rfl) (inline_literal _ rfl)

end Diagnostic

namespace Placement

namespace Reading

theorem presentable_absorb (r : Reading) : FailsOnly Failure.Presentable r.absorb := by
  unfold absorb
  split
  · exact Diagnostic.presentable_missingArgument _ _
  · exact failsOnly_ok _

theorem presentable_takeAmount (r : Reading) : FailsOnly Failure.Presentable r.takeAmount := by
  unfold takeAmount
  dsimp only
  split
  · refine FailsOnly.bind ?_ fun _ _ => failsOnly_ok _
    unfold Numeral.read
    split
    · exact failsOnly_error fun _ => nofun
    · exact failsOnly_ok _
  · split
    · exact (presentable_absorb r).bind fun _ _ => failsOnly_ok _
    · exact failsOnly_ok _

theorem presentable_takePrecision (r : Reading) :
    FailsOnly Failure.Presentable r.takePrecision := by
  unfold takePrecision
  split
  · exact presentable_takeAmount _
  · exact failsOnly_ok _

/-- The character that cannot continue a specifier is quoted. -/
theorem presentable_takeEnd (r : Reading) : FailsOnly Failure.Presentable r.takeEnd := by
  unfold takeEnd
  split
  · exact failsOnly_ok _
  · split
    · exact failsOnly_ok _
    · split
      · exact failsOnly_ok _
      · exact Diagnostic.presentable_malformedSpecifier _ _ (Text.inline_quoted _)

theorem presentable_placement (r : Reading) : FailsOnly Failure.Presentable r.placement := by
  unfold placement
  dsimp only
  refine (presentable_takeAmount _).bind fun _ _ => ?_
  refine (presentable_takePrecision _).bind fun _ _ => ?_
  exact (presentable_takeEnd _).bind fun _ _ => failsOnly_ok _

end Reading

theorem presentable_read (slot count : Int) (literal : Text) (following : List Text) :
    FailsOnly Failure.Presentable (read slot count literal following) := by
  unfold read
  split
  · exact failsOnly_ok _
  · exact Reading.presentable_placement _
  · exact failsOnly_ok _

end Placement

namespace Blueprint

theorem presentable_placementsFrom (count : Int) (slot skip : Nat) (literals : List Text) :
    FailsOnly Failure.Presentable (placementsFrom count slot skip literals) := by
  fun_induction placementsFrom count slot skip literals with
  | case1 => exact failsOnly_ok _
  | case2 _ _ _ _ ih => exact ih
  | case3 slot literal following ih =>
      refine (Placement.presentable_read _ _ _ _).bind fun p _ => ?_
      exact (ih p).bind fun _ _ => failsOnly_ok _

theorem presentable_ofSegments (segments : List Text) :
    FailsOnly Failure.Presentable (ofSegments segments) := by
  cases segments with
  | nil => exact failsOnly_error fun _ => nofun
  | cons head literals =>
      exact (presentable_placementsFrom _ _ _ _).bind fun _ _ => failsOnly_ok _

end Blueprint

namespace Supply

variable {values : List Value}

theorem mem_of_target? {target v : Value} {i : Nat} (h : target? values target = some (i, v)) :
    v ∈ values :=
  List.mem_of_getElem? (target?_eq_some_iff.mp h).2

/-- References lead to values of the template, and a target that is none is shown. -/
theorem yields_follow (hvalues : ∀ v ∈ values, v.Legible) (fuel : Nat) (trail : Trail) {v : Value}
    (hv : v.Legible) : Yields Value.Legible Failure.Presentable (follow values fuel trail v) := by
  have hpath : ∀ (trail : Trail) (i : Int), trail.cyclePath i ≠ [] := fun _ _ =>
    List.append_ne_nil_of_right_ne_nil _ (List.cons_ne_nil _ _)
  fun_induction follow values fuel trail v with
  | case1 fuel trail target _ =>
      have hshown := Value.yields_shown target hv
      exact yields_refuse (Diagnostic.presentable_invalidReference _ _ hshown)
  | case2 => exact yields_refuse (Diagnostic.presentable_selfReference _ (hpath _ _))
  | case3 => exact yields_refuse (Diagnostic.presentable_referenceCycle _ (hpath _ _))
  | case4 => exact yields_refuse (Diagnostic.presentable_referenceCycle _ (hpath _ _))
  | case5 _ _ _ _ htarget _ _ _ ih => exact ih (hvalues _ (mem_of_target? htarget))
  | case6 => exact yields_ok hv

theorem yields_resolveIn (hvalues : ∀ v ∈ values, v.Legible) (i : Int) :
    Yields Value.Legible Failure.Presentable (resolveIn values i) := by
  unfold resolveIn
  split
  · exact yields_refuse (Diagnostic.presentable_missingArgument _ _)
  · next n v htarget => exact yields_follow hvalues _ _ (hvalues v (mem_of_target? htarget))

/-- A value that is no amount is shown. -/
theorem presentable_toAmount {v : Value} (hv : v.Legible) {slot : Int}
    {refusal : Index → Text → Outcome Diagnostic}
    (hrefusal : ∀ s : Text, s.Inline →
      FailsOnly Failure.Presentable (Outcome.refuse (refusal (.position slot) s) : Outcome Int)) :
    FailsOnly Failure.Presentable (v.toAmount slot refusal) := by
  unfold Value.toAmount
  split
  · exact failsOnly_ok _
  · have hshown := (v.yields_shown hv).mono fun _ => NoFault.presentable
    exact hshown.failsOnly.bind fun s hs => hrefusal s (hshown.result s hs)

theorem presentable_amountAt (hvalues : ∀ v ∈ values, v.Legible) (slot : Option Int)
    {refusal : Index → Text → Outcome Diagnostic}
    (hrefusal : ∀ (slot : Int) (s : Text), s.Inline →
      FailsOnly Failure.Presentable (Outcome.refuse (refusal (.position slot) s) : Outcome Int)) :
    FailsOnly Failure.Presentable (amountAt values slot refusal) := by
  cases slot with
  | none => exact failsOnly_ok _
  | some i =>
      have hv := yields_resolveIn hvalues i
      refine hv.failsOnly.bind fun v hresolve => ?_
      refine (presentable_toAmount (hv.result v hresolve) (hrefusal i)).bind fun _ _ => ?_
      exact failsOnly_ok _

end Supply

variable {values : List Value}

theorem Placement.presentable_renderBySlot (p : Placement) (hvalues : ∀ v ∈ values, v.Legible)
    (decorate : Bool) : FailsOnly Failure.Presentable (p.renderBySlot values decorate) := by
  have hv := Supply.yields_resolveIn hvalues p.slot
  refine hv.failsOnly.bind fun v hresolve => ?_
  refine (Supply.presentable_amountAt hvalues _ fun slot _ hs =>
    Diagnostic.presentable_invalidWidth (.position slot) hs).bind fun _ _ => ?_
  refine (Supply.presentable_amountAt hvalues _ fun slot _ hs =>
    Diagnostic.presentable_invalidPrecision (.position slot) hs).bind fun _ _ => ?_
  have hplain := (hv.result v hresolve).failsOnly_plain
  refine FailsOnly.bind ?_ fun _ _ => failsOnly_ok _
  exact (Value.failsOnly_layOut_of_plain hplain _ _).mono fun _ => NoFault.presentable

/-- Whatever stands in a template and in its values, its faults are presentable. -/
theorem Template.presentable_render (t : Template) (hvalues : ∀ v ∈ t.values, v.Legible)
    (decorate : Bool) : FailsOnly Failure.Presentable (t.render decorate) := by
  rw [t.render_eq]
  refine (Blueprint.presentable_ofSegments _).bind fun b _ => ?_
  refine Outcome.failsOnly_foldlM (fun p _ r => ?_) _
  exact (p.presentable_renderBySlot hvalues decorate).bind fun _ _ => failsOnly_ok _

theorem Text.Inline.not_mem_newline (h : s.Inline) : '\n' ∉ s := by
  intro hmem
  cases h _ hmem

namespace Reporter

variable {d : Diagnostic}

theorem trimmed_default (layout : Layout) (s : Text) : trimmed { layout } s = s :=
  if_neg fun h => Bool.false_ne_true h.1

theorem inline_label (c : Code) : Inline c.label := by
  cases c <;> exact inline_literal _ rfl

theorem inline_headLine (h : d.Presentable) : Inline (headLine {} d) := by
  have hseverity : Inline (severity {} d) := by
    simp only [severity, Bool.false_eq_true, if_false]
    split
    · exact inline_literal _ rfl
    · exact inline_literal _ rfl
  rw [headLine, trimmed_default]
  simp only [inline_append, Text.inline_cons, hseverity, inline_label, h.message, and_true,
    true_and]
  exact ⟨rfl, inline_literal _ rfl⟩

theorem exists_slotLine (h : d.Presentable) :
    ∃ place, slotLine? d = some place ∧ place.Inline := by
  obtain ⟨slot, hslot⟩ := Option.isSome_iff_exists.mp h.slot
  unfold slotLine?
  rw [hslot]
  cases d.offset with
  | none => exact ⟨_, rfl, .append (inline_literal _ rfl) (Numeral.inline_ofNat _)⟩
  | some offset =>
      refine ⟨_, rfl, ?_⟩
      simp only [inline_append, Numeral.inline_ofNat, and_true]
      exact ⟨inline_literal _ rfl, inline_literal _ rfl⟩

/-- There is a line for the path if and only if there is a path. -/
theorem pathLine_of_presentable (h : d.Presentable) :
    (pathLine? d).toList.length = d.path.toList.length ∧
      ∀ line ∈ (pathLine? d).toList, line.Inline := by
  unfold pathLine?
  cases hpath : d.path with
  | none => exact ⟨rfl, fun _ hline => nomatch hline⟩
  | some path =>
      cases path with
      | nil => exact absurd hpath h.path
      | cons i path =>
          refine ⟨rfl, fun line hline => ?_⟩
          rw [List.mem_singleton.mp hline]
          exact .append (inline_literal _ rfl) (inline_pathText _)

theorem exists_hintLine (h : d.Presentable) :
    ∃ advice, hintLine? {} d = some advice ∧ advice.Inline := by
  obtain ⟨hint, hhint, hne, hinline⟩ := h.hint
  obtain ⟨c, s, rfl⟩ := List.exists_cons_of_ne_nil hne
  refine ⟨_, by rw [hintLine?, hhint], ?_⟩
  rw [trimmed_default]
  exact .append (inline_literal _ rfl) hinline

/-- The report is the head, the place, the path if there is one, and the advice, each on a line. -/
theorem lines_report (h : d.Presentable) : ∃ place advice,
    slotLine? d = some place ∧ hintLine? {} d = some advice ∧
      Text.lines (text {} d) = headLine {} d :: place :: ((pathLine? d).toList ++ [advice]) ∧
      ∀ line ∈ Text.lines (text {} d), line.Inline := by
  obtain ⟨place, hplace, hslot⟩ := exists_slotLine h
  obtain ⟨advice, hadvice, hhint⟩ := exists_hintLine h
  have hlines : Reporter.lines {} d =
      headLine {} d :: place :: ((pathLine? d).toList ++ [advice]) := by
    rw [Reporter.lines, hplace, hadvice]
    rfl
  have hinline : ∀ line ∈ Reporter.lines {} d, line.Inline := by
    rw [hlines]
    simp only [List.forall_mem_cons, List.forall_mem_append]
    exact ⟨inline_headLine h, hslot, (pathLine_of_presentable h).2, hhint, by simp⟩
  have hsingle : ∀ line ∈ Reporter.lines {} d, Text.lines line = [line] := fun line hline =>
    Text.lines_eq_singleton (hinline line hline).not_mem_newline
  have hsplit : Text.lines (text {} d) = Reporter.lines {} d :=
    (Text.lines_intercalate (List.cons_ne_nil _ _)).trans
      ((List.flatMap_congr hsingle).trans (List.flatMap_singleton' _))
  rw [hsplit]
  exact ⟨place, advice, hplace, hadvice, hlines, hinline⟩

theorem exists_brief (h : d.Presentable) :
    ∃ s, write { layout := .brief } d = .ok s ∧ s.Inline := by
  refine ⟨_, rfl, ?_⟩
  rw [trimmed_default]
  simp only [inline_append, inline_label, h.message, and_true, true_and]
  exact inline_literal _ rfl

end Reporter

/-- A fault of rendering is reported on three lines, or on four if its diagnostic has a path: the
head, the slot, the path if there is one, and the advice. Whatever stands in the template and in its
values, no other line break and no control character gets into the report, and the brief report is a
single line. -/
theorem Renderer.renderForms_reported {r : Renderer} {colors caching : Bool} {capacity : Int}
    (hr : Renderer.make colors caching capacity = .ok r) (calls : List Renderer.Call) {t : Template}
    (hvalues : ∀ v ∈ t.values, v.Legible) {decorate : Bool} {f : Fault}
    (hf : ((r.after calls).renderForms t decorate).1 = .error (.fault f)) :
    ∃ d place advice, f = .ofDiagnostic d ∧
      Reporter.slotLine? d = some place ∧ Reporter.hintLine? {} d = some advice ∧
      Text.lines f.message =
        Reporter.headLine {} d :: place :: ((Reporter.pathLine? d).toList ++ [advice]) ∧
      (Text.lines f.message).length = (if d.path.isSome then 4 else 3) ∧
      (∀ line ∈ Text.lines f.message, line.Inline) ∧
      ∃ s, Reporter.write { layout := .brief } d = .ok s ∧ s.Inline := by
  rw [renderForms_eq_render hr] at hf
  obtain ⟨d, rfl, hd⟩ := t.presentable_render hvalues decorate _ hf f rfl
  obtain ⟨place, advice, hplace, hadvice, hlines, hinline⟩ := Reporter.lines_report hd
  refine ⟨d, place, advice, rfl, hplace, hadvice, hlines, ?_, hinline, Reporter.exists_brief hd⟩
  have hmessage : (Fault.ofDiagnostic d).message = Reporter.text {} d := rfl
  have hpath := (Reporter.pathLine_of_presentable hd).1
  rw [hmessage, hlines, List.length_cons, List.length_cons, List.length_append, hpath]
  cases d.path <;> rfl

/-- A text with a line break and a control sequence is supplied for a width. -/
theorem Renderer.renderForms_reported_escapes :
    ∃ r, Renderer.make false true 1 = .ok r ∧
      let t : Template := ⟨[[], [':'], []], [.int 5, .text ['a', '\n', '\x1b', '[', 'm']], rfl⟩
      (∀ v ∈ t.values, v.Legible) ∧ ∃ f, (r.renderForms t false).1 = .error (.fault f) ∧
        Text.lines f.message = [
          "error[INVALID_WIDTH]: Invalid width 'a\\n\\x1b[m' in slot 1 ".toList ++
            "(must be a non-negative integer)".toList,
          "  --> slot 1".toList,
          "  = help: Write the width inline or pass an int in the following slot".toList] ∧
        ∀ line ∈ Text.lines f.message, line.Inline := by
  obtain ⟨r, hr⟩ : ∃ r, Renderer.make false true 1 = .ok r := ⟨_, rfl⟩
  let t : Template := ⟨[[], [':'], []], [.int 5, .text ['a', '\n', '\x1b', '[', 'm']], rfl⟩
  have hvalues : ∀ v ∈ t.values, v.Legible := by
    intro v hv
    simp only [t, List.mem_cons, List.not_mem_nil, or_false] at hv
    rcases hv with rfl | rfl
    · trivial
    · trivial
  obtain ⟨f, hf, hlines⟩ : ∃ f, ((r.after []).renderForms t false).1 = .error (.fault f) ∧
      Text.lines f.message = [
        "error[INVALID_WIDTH]: Invalid width 'a\\n\\x1b[m' in slot 1 ".toList ++
          "(must be a non-negative integer)".toList,
        "  --> slot 1".toList,
        "  = help: Write the width inline or pass an int in the following slot".toList] := by
    cases hr
    exact ⟨_, rfl, by decide +kernel⟩
  obtain ⟨d, place, advice, -, -, -, -, -, hinline, -⟩ :=
    Renderer.renderForms_reported hr [] hvalues hf
  exact ⟨r, hr, hvalues, f, hf, hlines, hinline⟩

end SlotText
