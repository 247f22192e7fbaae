import SlotText.Proofs.Style.Shown

/-!
# Stripping text without styles

A text without escape characters has no control sequences, and stripping takes out none. It is not
always left alone: of every line only what follows the last carriage return is kept, and of that the
characters that move the cursor are dropped. So what remains is a part of the text in its order. It
is the whole text if and only if none of these characters stands in it, and then the text shows as
many characters as it has. All other characters remain, line breaks and tabs among them.
-/
namespace SlotText.Text

/-- The characters that move the cursor without showing anything: bell, backspace, vertical tab,
form feed and carriage return. -/
def motions : List Char := ['\x07', '\x08', '\x0b', '\x0c', '\r']

variable {s line : Text}

theorem isMotion_iff (c : Char) : isMotion c = true ↔ c ∈ motions := by
  simp [isMotion, motions, or_assoc]

theorem afterReturn_suffix (line : Text) : afterReturn line <:+ line :=
  List.rtakeWhile_suffix _ line

/-- Without control sequences all of a line is visible. -/
theorem stripLine_unstyled (h : Style.escape ∉ line) :
    stripLine line = (afterReturn line).filter (!isMotion ·) := by
  have hafter : Style.escape ∉ afterReturn line := fun hmem =>
    h ((afterReturn_suffix line).subset hmem)
  rw [stripLine, (shows_self _).visible hafter (Nat.le_refl _)]

theorem stripLine_sublist (h : Style.escape ∉ line) : (stripLine line).Sublist line := by
  rw [stripLine_unstyled h]
  exact List.filter_sublist.trans (afterReturn_suffix line).sublist

theorem stripLine_eq_self (h : Style.escape ∉ line) (hmotions : ∀ c ∈ motions, c ∉ line) :
    stripLine line = line := by
  rw [stripLine_unstyled h, afterReturn_eq_self (hmotions _ (by decide)), List.filter_eq_self]
  intro c hc
  rw [Bool.not_eq_true', ← Bool.not_eq_true, isMotion_iff]
  exact fun hmotion => hmotions c hmotion hc

theorem intercalate_sublist {separator : Text} {ls ls' : List Text}
    (h : List.Forall₂ List.Sublist ls ls') :
    (List.intercalate separator ls).Sublist (List.intercalate separator ls') := by
  induction h with
  | nil => exact List.Sublist.refl _
  | cons hfirst hrest ih =>
      cases hrest with
      | nil =>
          rw [List.intercalate_singleton, List.intercalate_singleton]
          exact hfirst
      | cons _ _ =>
          rw [List.intercalate_cons_cons, List.intercalate_cons_cons]
          exact (hfirst.append (List.Sublist.refl separator)).append ih

theorem escape_not_mem_lines (h : Style.escape ∉ s) : ∀ line ∈ lines s, Style.escape ∉ line :=
  fun _ hline hmem => h (exists_mem_of_mem_lines hline hmem)

theorem stripStyles_sublist (h : Style.escape ∉ s) : (stripStyles s).Sublist s := by
  have hlines : List.Forall₂ List.Sublist ((lines s).map stripLine) (lines s) := by
    rw [List.forall₂_map_left_iff, List.forall₂_same]
    exact fun line hline => stripLine_sublist (escape_not_mem_lines h line hline)
  have hsublist : (stripStyles s).Sublist (List.intercalate ['\n'] (lines s)) :=
    intercalate_sublist hlines
  rwa [intercalate_lines] at hsublist

/-- No character that moves the cursor survives, with or without control sequences around it. -/
theorem not_mem_stripStyles (s : Text) : ∀ c ∈ motions, c ∉ stripStyles s := by
  intro c hc hmem
  rcases exists_mem_of_mem_intercalate hmem with hmem | ⟨line, hline, hmem⟩
  · cases List.mem_singleton.mp hmem
    exact absurd hc (by decide)
  · obtain ⟨line, -, rfl⟩ := List.mem_map.mp hline
    have hkept := (List.mem_filter.mp hmem).2
    rw [Bool.not_eq_true', (isMotion_iff c).mpr hc] at hkept
    cases hkept

theorem stripStyles_eq_self (h : Style.escape ∉ s) (hmotions : ∀ c ∈ motions, c ∉ s) :
    stripStyles s = s := by
  have hlines : ∀ line ∈ lines s, stripLine line = id line := by
    intro line hline
    refine stripLine_eq_self (escape_not_mem_lines h line hline) fun c hc hmem => ?_
    exact hmotions c hc (exists_mem_of_mem_lines hline hmem)
  rw [stripStyles, List.map_congr_left hlines, List.map_id, intercalate_lines]

/-- Stripping a text without escape characters leaves of every line what follows the last carriage
return, without the characters that move the cursor. This is the text itself, and the text shows as
many characters as it has, if and only if none of these characters stands in it. -/
theorem stripStyles_unstyled (h : Style.escape ∉ s) :
    stripStyles s =
      List.intercalate ['\n'] ((lines s).map fun line => (afterReturn line).filter (· ∉ motions)) ∧
    (stripStyles s).Sublist s ∧
    (stripStyles s = s ↔ ∀ c ∈ motions, c ∉ s) ∧
    (trueLength s = s.length ↔ ∀ c ∈ motions, c ∉ s) := by
  have hself : stripStyles s = s ↔ ∀ c ∈ motions, c ∉ s := by
    constructor
    · intro heq
      rw [← heq]
      exact not_mem_stripStyles s
    · exact stripStyles_eq_self h
  refine ⟨?_, stripStyles_sublist h, hself, ?_⟩
  · have hmotion : (fun c : Char => !isMotion c) = fun c => decide (c ∉ motions) := by
      funext c
      rw [Bool.eq_iff_iff, Bool.not_eq_true', ← Bool.not_eq_true, isMotion_iff, decide_eq_true_eq]
    have hlines : ∀ line ∈ lines s,
        stripLine line = (afterReturn line).filter (· ∉ motions) := by
      intro line hline
      rw [stripLine_unstyled (escape_not_mem_lines h line hline), hmotion]
    rw [stripStyles, List.map_congr_left hlines]
  · rw [← hself]
    constructor
    · exact (stripStyles_sublist h).eq_of_length
    · exact congrArg List.length

/-- Tabs, other separators of lines, and line breaks at the end and one after another remain. -/
theorem stripStyles_unstyled_separators :
    let s : Text := ['a', '\t', '\u2028', 'b', '\n', '\n', '\u0085', '\x1c', '\n']
    Style.escape ∉ s ∧ stripStyles s = s ∧ trueLength s = 9 := by
  intro s
  have hescape : Style.escape ∉ s := by decide
  have hmotions : ∀ c ∈ motions, c ∉ s := by
    intro c hc
    simp only [motions, List.mem_cons, List.not_mem_nil, or_false] at hc
    rcases hc with rfl | rfl | rfl | rfl | rfl <;> decide
  obtain ⟨-, -, hself, hlength⟩ := stripStyles_unstyled hescape
  exact ⟨hescape, hself.mpr hmotions, hlength.mpr hmotions⟩

/-- A carriage return takes what stands before it along. -/
theorem stripStyles_carriage_return :
    Style.escape ∉ ['a', '\r', 'b'] ∧ stripStyles ['a', '\r', 'b'] = ['b'] ∧
      trueLength ['a', '\r', 'b'] ≠ ['a', '\r', 'b'].length := by
  decide

end SlotText.Text
