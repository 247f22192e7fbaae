import SlotText.Proofs.Rendering.Reported

/-!
# How long the lines of a report are

A reporter that truncates cuts the message and the advice of a diagnostic to its limit. With slots
and offsets of at most ten digits this bounds every line of the detailed report but one, and the
brief report. The line of the path is not cut. It has at least five characters for each slot on the
path, so that it passes the bound as soon as enough references were followed.
-/
namespace SlotText

theorem Text.length_le_of_mem_lines {line s : Text} (h : line ∈ lines s) :
    line.length ≤ s.length := by
  induction s generalizing line with
  | nil =>
      cases List.mem_singleton.mp h
      exact Nat.le_refl _
  | cons c s ih =>
      by_cases hc : c = '\n'
      · rw [lines, if_pos hc] at h
        rcases List.mem_cons.mp h with rfl | h
        · exact Nat.zero_le _
        · exact Nat.le_succ_of_le (ih h)
      · obtain ⟨first, more, hl⟩ := List.exists_cons_of_ne_nil (lines_ne_nil s)
        rw [lines_cons hc, hl, List.modifyHead_cons] at h
        rcases List.mem_cons.mp h with rfl | h
        · exact Nat.succ_le_succ (ih (hl ▸ List.mem_cons_self))
        · exact Nat.le_succ_of_le (ih (hl ▸ List.mem_cons_of_mem _ h))

namespace Reporter

variable {r : Reporter} {m : Nat} {d : Diagnostic}

theorem length_trimmed_le (htruncating : r.truncating = true) (hlimit : r.limit = m) (s : Text) :
    (r.trimmed s).length ≤ m + 3 := by
  unfold trimmed
  split
  · rw [hlimit, Text.sliceTo_of_nonneg, List.length_append, List.length_take]
    have hpoints : "...".toList.length = 3 := rfl
    omega
  · next h =>
      rw [hlimit] at h
      have hle : ¬(m : Int) < s.length := fun hlt => h ⟨htruncating, hlt⟩
      omega

theorem length_label_le (c : Code) : c.label.length ≤ 19 := by
  cases c <;> decide

theorem length_severity_le (r : Reporter) (d : Diagnostic) : (r.severity d).length ≤ 18 := by
  unfold severity
  dsimp only
  split <;> split <;> decide

theorem length_headLine_le (htruncating : r.truncating = true) (hlimit : r.limit = m) :
    (r.headLine d).length ≤ m + 44 := by
  have hseverity := length_severity_le r d
  have hlabel := length_label_le d.code
  have hmessage := length_trimmed_le htruncating hlimit d.message
  have hclose : "]: ".toList.length = 3 := rfl
  simp only [headLine, List.length_append, List.length_cons]
  omega

theorem length_slotLine_le (hslot : ∀ i, d.slot = some i → i < 10 ^ 10)
    (hoffset : ∀ i, d.offset = some i → i < 10 ^ 10) {line : Text} (h : slotLine? d = some line) :
    line.length ≤ 40 := by
  have hopen : "  --> slot ".toList.length = 11 := rfl
  have hbetween : ", offset ".toList.length = 9 := rfl
  unfold slotLine? at h
  split at h
  · next slot offset hs ho =>
      cases h
      have := Numeral.length_ofNat_le (by decide) (hslot slot hs)
      have := Numeral.length_ofNat_le (by decide) (hoffset offset ho)
      simp only [List.length_append]
      omega
  · next slot hs ho =>
      cases h
      have := Numeral.length_ofNat_le (by decide) (hslot slot hs)
      simp only [List.length_append]
      omega
  · cases h

theorem length_hintLine_le (htruncating : r.truncating = true) (hlimit : r.limit = m) {line : Text}
    (h : r.hintLine? d = some line) : line.length ≤ m + 13 := by
  have hopen : "  = help: ".toList.length = 10 := rfl
  unfold hintLine? at h
  split at h
  · next c hint _ =>
      cases h
      have := length_trimmed_le htruncating hlimit (c :: hint)
      simp only [List.length_append]
      omega
  · cases h

/-- A path takes a digit and an arrow for each of its slots, without an arrow for the last. -/
theorem le_length_pathText (path : List Int) :
    5 * path.length ≤ (pathText path).length + 4 := by
  have hpos : ∀ s ∈ path.map Numeral.ofInt, 1 ≤ s.length := by
    intro s hs
    obtain ⟨i, -, rfl⟩ := List.mem_map.mp hs
    exact List.length_pos_iff.mpr (Numeral.ofInt_ne_nil i)
  have hlength := Text.le_length_intercalate " -> ".toList hpos
  rwa [List.length_map] at hlength

theorem pathLine_eq {line : Text} (h : pathLine? d = some line) :
    ∃ path, d.path = some path ∧ path ≠ [] ∧ line = "  = path: ".toList ++ pathText path := by
  unfold pathLine? at h
  split at h
  · next i path hpath =>
      cases h
      exact ⟨_, hpath, List.cons_ne_nil _ _, rfl⟩
  · cases h

theorem lines_pathLine {line : Text} (h : pathLine? d = some line) : Text.lines line = [line] := by
  obtain ⟨path, -, -, rfl⟩ := pathLine_eq h
  refine Text.lines_eq_singleton (Text.Inline.not_mem_newline ?_)
  exact .append (Text.inline_literal _ rfl) (inline_pathText path)

theorem lines_write (hlayout : r.layout = .detailed) {s : Text} (hs : r.write d = .ok s) :
    Text.lines s = (r.lines d).flatMap Text.lines := by
  rw [write, hlayout] at hs
  obtain ⟨_, -, hs⟩ := Outcome.bind_eq_ok.mp hs
  cases hs
  exact Text.lines_intercalate (List.cons_ne_nil _ _)

/-- Slots and offsets of ten digits are written, so the report depends on the path alone. -/
theorem decided_write (hlayout : r.layout = .detailed) (hslot : ∀ i, d.slot = some i → i < 10 ^ 10)
    (hoffset : ∀ i, d.offset = some i → i < 10 ^ 10) :
    Outcome.Decided (∀ n ∈ d.path.getD [], n.natAbs < Nat.pow 10 Numeral.longest) .numeralTooLong
      (r.write d) := by
  have hnumbers := Outcome.Decided.mapM (l := lineNumbers d) fun n _ => Numeral.decided_write n
  have hshort : ∀ {i : Nat}, i < 10 ^ 10 → i < Nat.pow 10 Numeral.longest := fun hi =>
    Nat.lt_of_lt_of_le hi (Numeral.pow_ten_le (by decide))
  rw [write, hlayout]
  refine (hnumbers.bind fun _ => ⟨_, rfl⟩).congr ?_
  rw [lineNumbers, List.forall_mem_append]
  refine and_iff_right ?_
  split
  · next slot offset hs ho =>
      simp only [List.forall_mem_cons]
      exact ⟨hshort (hslot slot hs), hshort (hoffset offset ho), List.forall_mem_nil _⟩
  · next slot hs _ =>
      simp only [List.forall_mem_cons]
      exact ⟨hshort (hslot slot hs), List.forall_mem_nil _⟩
  · exact List.forall_mem_nil _

theorem length_le_or_pathLine (htruncating : r.truncating = true) (hlimit : r.limit = m)
    (hslot : ∀ i, d.slot = some i → i < 10 ^ 10) (hoffset : ∀ i, d.offset = some i → i < 10 ^ 10)
    {part : Text} (h : part ∈ r.lines d) : part.length ≤ m + 64 ∨ pathLine? d = some part := by
  simp only [Reporter.lines, List.mem_cons, List.mem_append, Option.mem_toList] at h
  rcases h with rfl | (h | h) | h
  · have := length_headLine_le (d := d) htruncating hlimit
    exact .inl (by omega)
  · have := length_slotLine_le hslot hoffset h
    exact .inl (by omega)
  · exact .inr h
  · have := length_hintLine_le htruncating hlimit h
    exact .inl (by omega)

theorem length_le_or_pathLine_of_mem (hlayout : r.layout = .detailed)
    (htruncating : r.truncating = true) (hlimit : r.limit = m)
    (hslot : ∀ i, d.slot = some i → i < 10 ^ 10) (hoffset : ∀ i, d.offset = some i → i < 10 ^ 10)
    {line s : Text} (hs : r.write d = .ok s) (h : line ∈ Text.lines s) :
    line.length ≤ m + 64 ∨ pathLine? d = some line := by
  rw [lines_write hlayout hs] at h
  obtain ⟨part, hpart, hline⟩ := List.mem_flatMap.mp h
  rcases length_le_or_pathLine htruncating hlimit hslot hoffset hpart with hle | hpath
  · exact .inl (Nat.le_trans (Text.length_le_of_mem_lines hline) hle)
  · rw [lines_pathLine hpath, List.mem_singleton] at hline
    exact .inr (hline ▸ hpath)

/-- The path is one of the lines as it stands. -/
theorem pathLine_mem_lines (hlayout : r.layout = .detailed) {line s : Text}
    (hs : r.write d = .ok s) (h : pathLine? d = some line) : line ∈ Text.lines s := by
  rw [lines_write hlayout hs]
  have hpart : line ∈ r.lines d := by simp [Reporter.lines, h]
  refine List.mem_flatMap.mpr ⟨line, hpart, ?_⟩
  rw [lines_pathLine h]
  exact List.mem_singleton_self line

theorem length_path_le {k : Nat} (h : ∀ line, pathLine? d = some line → line.length ≤ k + 6) :
    5 * (d.path.getD []).length ≤ k := by
  cases hd : d.path with
  | none => exact Nat.zero_le _
  | some path =>
      cases path with
      | nil => exact Nat.zero_le _
      | cons i path =>
          have hline : pathLine? d = some ("  = path: ".toList ++ pathText (i :: path)) := by
            rw [pathLine?, hd]
          have hle := h _ hline
          have hlength := le_length_pathText (i :: path)
          have hopen : "  = path: ".toList.length = 10 := rfl
          rw [List.length_append, hopen] at hle
          simp only [Option.getD_some]
          omega

/-- In a truncated report with slots and offsets of at most ten digits, no line but that of the path
has more than 64 characters above the limit. All lines keep to the bound if and only if the line of
the path does, and then the path is no longer than about a fifth of it. Only a path with a number
that is too long to be written has no such report. The brief report is always there and keeps to the
bound. -/
theorem lines_bounded (htruncating : r.truncating = true) (hlimit : r.limit = m)
    (hslot : ∀ i, d.slot = some i → i < 10 ^ 10) (hoffset : ∀ i, d.offset = some i → i < 10 ^ 10) :
    (r.layout = .detailed →
      ((∃ s, r.write d = .ok s) ↔
        ∀ n ∈ d.path.getD [], n.natAbs < Nat.pow 10 Numeral.longest) ∧
      ∀ s, r.write d = .ok s →
        (∀ line ∈ Text.lines s, line.length ≤ m + 64 ∨ pathLine? d = some line) ∧
        ((∀ line ∈ Text.lines s, line.length ≤ m + 64) ↔
          ∀ line, pathLine? d = some line → line.length ≤ m + 64) ∧
        ((∀ line ∈ Text.lines s, line.length ≤ m + 64) →
          5 * (d.path.getD []).length ≤ m + 58)) ∧
    (r.layout = .brief → ∃ s, r.write d = .ok s ∧ s.length ≤ m + 64) := by
  constructor
  · intro hlayout
    refine ⟨(decided_write hlayout hslot hoffset).ok_iff, ?_⟩
    intro s hs
    have hlines : ∀ line ∈ Text.lines s,
        line.length ≤ m + 64 ∨ pathLine? d = some line := fun _ =>
      length_le_or_pathLine_of_mem hlayout htruncating hlimit hslot hoffset hs
    have hpath : (∀ line ∈ Text.lines s, line.length ≤ m + 64) →
        ∀ line, pathLine? d = some line → line.length ≤ m + 64 := fun hbound _ hline =>
      hbound _ (pathLine_mem_lines hlayout hs hline)
    refine ⟨hlines, ⟨hpath, ?_⟩, fun hbound => length_path_le (hpath hbound)⟩
    intro hbound line hline
    exact (hlines line hline).elim id (hbound line)
  · intro hlayout
    have hlabel := length_label_le d.code
    have hmessage := length_trimmed_le htruncating hlimit d.message
    have hbetween : ": ".toList.length = 2 := rfl
    refine ⟨_, by rw [write, hlayout], ?_⟩
    simp only [List.length_append]
    omega

/-- A coloured report whose message has a line break, with all that a report can have. -/
theorem lines_bounded_everything :
    let r : Reporter := { truncating := true, colored := true, limit := 3 }
    let d : Diagnostic := {
      code := .malformedSpecifier, message := ['a', '\n', 'b', 'c', 'd'], slot := some 9999999999
      offset := some 0, hint := some "advice".toList, severity := "warning".toList
      path := some [9999999999, -1] }
    (∀ line, pathLine? d = some line → line.length ≤ 67) ∧
      ∃ s, r.write d = .ok s ∧ (Text.lines s).length = 5 ∧
        ∀ line ∈ Text.lines s, line.length ≤ 67 := by
  intro r d
  have hpath : ∀ line, pathLine? d = some line → line.length ≤ 67 := by
    intro line hline
    cases hline
    decide
  obtain ⟨hdetailed, -⟩ := lines_bounded (r := r) (m := 3) (d := d) rfl rfl
    (fun i hi => by cases hi; decide) (fun i hi => by cases hi; decide)
  have hs : r.write d = .ok (r.text d) := rfl
  exact ⟨hpath, _, hs, by decide +kernel, ((hdetailed rfl).2 _ hs).2.1.mpr hpath⟩

/-- The path is as long as the chain of references, whatever the limit. -/
theorem lines_long_path :
    let r : Reporter := { truncating := true, limit := 0 }
    let d : Diagnostic :=
      { code := .referenceCycle, message := [], path := some (List.replicate 15 0) }
    ∃ s, r.write d = .ok s ∧ ∃ line ∈ Text.lines s, 0 + 64 < line.length := by
  intro r d
  exact ⟨r.text d, rfl, by decide +kernel⟩

end Reporter

end SlotText
