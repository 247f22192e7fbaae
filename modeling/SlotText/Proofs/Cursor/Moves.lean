import SlotText.Cursor
import SlotText.Proofs.Outcome

/-!
# Moves of a cursor

A cursor inside its source divides the source into the text behind it and the text ahead. A move
takes some text from ahead and leaves it behind, and text that is appended to the source is appended
to what lies ahead. So whatever the moves are and however many, the cursor stays inside, it never
goes back, and no character is lost or met twice: the text that is passed and the text that is left
are together the text that lay ahead at first and the text that was appended.

A run of digits is taken to its end. What is taken is the longest beginning of the text ahead that
consists of digits, and so no digit is at the cursor afterwards.
-/
namespace SlotText

/-- The part in the middle lies between the end of the first part and its own end. -/
theorem Text.slice_append (s t u : Text) :
    slice (s ++ (t ++ u)) s.length (s ++ t).length = t := by
  have hend : (s ++ t).length ≤ (s ++ (t ++ u)).length := by simp
  have hstart : s.length ≤ (s ++ (t ++ u)).length := by simp
  simp only [slice, boundary, Int.natCast_nonneg, Int.not_lt.mpr, if_false, Int.toNat_natCast,
    Nat.min_eq_left hend, Nat.min_eq_left hstart]
  rw [← List.append_assoc, List.take_left, List.drop_left]

theorem Text.at?_append_cons (s : Text) (x : Char) (t : Text) :
    at? (s ++ x :: t) s.length = some x := by
  have hnonneg : ¬(s.length : Int) < 0 := by omega
  simp [at?, hnonneg]

/-- The longest beginning of a text that consists of digits. -/
structure Text.LongestDigits (ds s : Text) : Prop where
  begins : ds <+: s
  digits : ∀ x ∈ ds, Numeral.isDigit x = true
  longest : ∀ es : Text, es <+: s → (∀ x ∈ es, Numeral.isDigit x = true) → es <+: ds

namespace Cursor

/-- The position is one of the source, which may be its end. -/
structure Inside (c : Cursor) : Prop where
  nonneg : 0 ≤ c.position
  le_length : c.position ≤ c.source.length

/-- The cursor that has one text behind it and another one ahead. -/
def between (behind ahead : Text) : Cursor := ⟨behind ++ ahead, behind.length⟩

inductive Move where
  | advance (n : Nat)
  | expect (expected : Text)
  | takeDigits
  | extend (s : Text)
  deriving DecidableEq, Repr

/-- The text that a move appends to the source. -/
def Move.appended : Move → Text
  | extend s => s
  | _ => []

/-- The cursor after a move. If something else is expected than is there, it is where it was. -/
def perform (c : Cursor) : Move → Outcome Cursor
  | .advance n => .ok (c.advance n)
  | .expect expected => (c.expect expected).map fun found => found.getD c
  | .takeDigits => c.takeDigits.map Prod.snd
  | .extend s => .ok (c.extend s)

/-- The cursors after the moves, one for each of them. -/
def trail (c : Cursor) : List Move → Outcome (List Cursor)
  | [] => .ok []
  | m :: moves => do
    let c' ← c.perform m
    let later ← c'.trail moves
    return c' :: later

/-- The text that is passed on the way over some cursors, put together in order. -/
def passed (c : Cursor) : List Cursor → Text
  | [] => []
  | c' :: later => c'.source.slice c.position c'.position ++ c'.passed later

variable {behind ahead : Text}

theorem Inside.exists_between {c : Cursor} (h : c.Inside) :
    ∃ behind ahead, c = between behind ahead := by
  obtain ⟨source, position⟩ := c
  obtain ⟨hnonneg, hle⟩ := h
  obtain ⟨n, rfl⟩ := Int.eq_ofNat_of_zero_le hnonneg
  refine ⟨source.take n, source.drop n, ?_⟩
  have hlength : (source.take n).length = n := List.length_take_of_le (Int.ofNat_le.mp hle)
  rw [between, List.take_append_drop, hlength]

@[simp] theorem source_between (behind ahead : Text) :
    (between behind ahead).source = behind ++ ahead := rfl

@[simp] theorem position_between (behind ahead : Text) :
    (between behind ahead).position = behind.length := rfl

theorem inside_between (behind ahead : Text) : (between behind ahead).Inside := by
  constructor
  · exact Int.natCast_nonneg behind.length
  · exact Int.ofNat_le.mpr (by simp)

@[simp] theorem remainder_between (behind ahead : Text) :
    (between behind ahead).remainder = ahead := by
  have hslice := Text.slice_append behind ahead []
  rwa [List.append_nil] at hslice

@[simp] theorem atEnd_between (behind ahead : Text) :
    (between behind ahead).atEnd = ahead.isEmpty := by
  cases ahead with
  | nil => simp [atEnd]
  | cons x ahead =>
      have hlt : ¬((behind ++ x :: ahead).length : Int) ≤ behind.length := by
        rw [List.length_append, List.length_cons]
        omega
      exact decide_eq_false hlt

@[simp] theorem current_between_cons (behind : Text) (x : Char) (ahead : Text) :
    (between behind (x :: ahead)).current = .ok x := by
  simp [current, charAt, Text.at?_append_cons]

@[simp] theorem advance_between (behind ahead : Text) (n : Nat) :
    (between behind ahead).advance n = between (behind ++ ahead.take n) (ahead.drop n) := by
  rw [between, between, advance, List.append_assoc, List.take_append_drop]
  refine congrArg (mk _) ?_
  simp only [List.length_append, List.length_take]
  omega

@[simp] theorem advance_between_cons (behind : Text) (x : Char) (ahead : Text) :
    (between behind (x :: ahead)).advance 1 = between (behind ++ [x]) ahead :=
  advance_between behind (x :: ahead) 1

@[simp] theorem extend_between (behind ahead s : Text) :
    (between behind ahead).extend s = between behind (ahead ++ s) := by
  rw [between, between, extend, List.append_assoc]

@[simp] theorem expect_between_nil (behind expected : Text) :
    (between behind []).expect expected = .ok none := by
  simp [expect]

/-- An expectation is met by exactly the single character that comes next. -/
@[simp] theorem expect_between_cons (behind : Text) (x : Char) (ahead expected : Text) :
    (between behind (x :: ahead)).expect expected =
      .ok (if expected = [x] then some (between (behind ++ [x]) ahead) else none) := by
  simp [expect, Except.map]

/-- With enough fuel, digits are skipped up to the first character that is none. -/
theorem skipDigits_between (behind ahead : Text) {fuel : Nat} (h : ahead.length ≤ fuel) :
    skipDigits fuel (between behind ahead) =
      .ok (between (behind ++ ahead.takeWhile Numeral.isDigit)
        (ahead.dropWhile Numeral.isDigit)) := by
  -- A digit that is skipped is behind the cursor for all that follows.
  induction ahead generalizing behind fuel with
  | nil => cases fuel <;> simp [skipDigits]
  | cons x ahead ih =>
      cases fuel with
      | zero => simp at h
      | succ fuel =>
          cases hx : Numeral.isDigit x with
          | true =>
              have hlater := ih (behind ++ [x]) (Nat.le_of_succ_le_succ h)
              simpa [skipDigits, hx] using hlater
          | false => simp [skipDigits, hx]

@[simp] theorem takeDigits_between (behind ahead : Text) :
    (between behind ahead).takeDigits = .ok (ahead.takeWhile Numeral.isDigit,
      between (behind ++ ahead.takeWhile Numeral.isDigit) (ahead.dropWhile Numeral.isDigit)) := by
  have hfuel : ahead.length ≤ ((between behind ahead).source.length -
      (between behind ahead).position).toNat := by
    simp only [source_between, position_between, List.length_append]
    omega
  have hslice := Text.slice_append behind (ahead.takeWhile Numeral.isDigit)
    (ahead.dropWhile Numeral.isDigit)
  rw [List.takeWhile_append_dropWhile] at hslice
  rw [takeDigits, skipDigits_between behind ahead hfuel]
  exact congrArg (fun ds => Except.ok (ds, _)) hslice

/-- The digits before the first character that is none are the longest run of them. -/
theorem longestDigits_takeWhile (s : Text) :
    Text.LongestDigits (s.takeWhile Numeral.isDigit) s := by
  refine ⟨List.takeWhile_prefix _, List.all_eq_true.mp List.all_takeWhile, ?_⟩
  rintro es ⟨rest, rfl⟩ hes
  rw [List.takeWhile_append_of_pos hes]
  exact List.prefix_append es _

/-- A move leaves some text behind and nothing else happens to what lies ahead, but for the text
that is appended to it. -/
theorem exists_perform (behind ahead : Text) (m : Move) :
    ∃ taken rest, (between behind ahead).perform m = .ok (between (behind ++ taken) rest) ∧
      taken ++ rest = ahead ++ m.appended := by
  cases m with
  | advance n =>
      exact ⟨ahead.take n, ahead.drop n, by simp [perform], by simp [Move.appended]⟩
  | expect expected =>
      cases ahead with
      | nil => exact ⟨[], [], by simp [perform, Except.map], rfl⟩
      | cons x ahead =>
          by_cases hx : expected = [x]
          · exact ⟨[x], ahead, by simp [perform, Except.map, hx], by simp [Move.appended]⟩
          · exact ⟨[], x :: ahead, by simp [perform, Except.map, hx], by simp [Move.appended]⟩
  | takeDigits =>
      exact ⟨ahead.takeWhile Numeral.isDigit, ahead.dropWhile Numeral.isDigit,
        by simp [perform, Except.map], by simp [Move.appended]⟩
  | extend s => exact ⟨[], ahead ++ s, by simp [perform], rfl⟩

/-- Over later cursors, with some text appended on the way, no cursor is outside its source or in
front of an earlier one, and all text is either passed or left. -/
structure Conserves (c : Cursor) (later : List Cursor) (appended : Text) : Prop where
  inside : ∀ c' ∈ later, c'.Inside
  ordered : (c :: later).Pairwise (·.position ≤ ·.position)
  text : c.passed later ++ (later.getLastD c).remainder = c.remainder ++ appended

theorem Conserves.nil (c : Cursor) : c.Conserves [] [] := by
  refine ⟨by simp, by simp, ?_⟩
  simp [passed]

theorem Conserves.cons {later : List Cursor} {taken rest appended appended' : Text}
    (hstep : taken ++ rest = ahead ++ appended)
    (h : (between (behind ++ taken) rest).Conserves later appended') :
    (between behind ahead).Conserves (between (behind ++ taken) rest :: later)
      (appended ++ appended') := by
  have hle : (between behind ahead).position ≤ (between (behind ++ taken) rest).position := by
    simp only [position_between, List.length_append]
    omega
  refine ⟨List.forall_mem_cons.mpr ⟨inside_between _ _, h.inside⟩, ?_, ?_⟩
  · have hordered := h.ordered
    refine List.pairwise_cons.mpr ⟨List.forall_mem_cons.mpr ⟨hle, fun c' hc' => ?_⟩, hordered⟩
    exact Int.le_trans hle (List.rel_of_pairwise_cons hordered hc')
  · have hslice := Text.slice_append behind taken rest
    have htext := h.text
    simp only [remainder_between] at htext
    simp only [passed, source_between, position_between, List.append_assoc, hslice,
      List.getLastD_cons, htext, remainder_between]
    rw [← List.append_assoc, hstep, List.append_assoc]

theorem exists_trail (behind ahead : Text) (moves : List Move) :
    ∃ later, (between behind ahead).trail moves = .ok later ∧
      (between behind ahead).Conserves later (moves.flatMap Move.appended) := by
  induction moves generalizing behind ahead with
  | nil => exact ⟨[], rfl, .nil _⟩
  | cons m moves ih =>
      obtain ⟨taken, rest, hperform, hstep⟩ := exists_perform behind ahead m
      obtain ⟨later, htrail, hlater⟩ := ih (behind ++ taken) rest
      refine ⟨between (behind ++ taken) rest :: later, ?_, hlater.cons hstep⟩
      rw [trail, hperform, Outcome.ok_bind, htrail]
      rfl

/-- Taking digits at a cursor gives the longest run of them and stops behind it. -/
theorem exists_takeDigits {c : Cursor} (h : c.Inside) :
    ∃ ds stop, c.takeDigits = .ok (ds, stop) ∧ Text.LongestDigits ds c.remainder ∧
      c.remainder = ds ++ stop.remainder ∧
      (stop.atEnd = true ∨ ∃ x, stop.current = .ok x ∧ Numeral.isDigit x = false) := by
  obtain ⟨behind, ahead, rfl⟩ := h.exists_between
  refine ⟨_, _, takeDigits_between behind ahead, ?_, ?_, ?_⟩
  · simpa using longestDigits_takeWhile ahead
  · simp
  · have hstop := List.head?_dropWhile_not Numeral.isDigit ahead
    cases hrest : ahead.dropWhile Numeral.isDigit with
    | nil => exact .inl (by simp)
    | cons x rest => exact .inr ⟨x, by simp, by simpa [hrest] using hstop⟩

/-- After any moves a cursor is inside its source and not in front of where it was. The text that it
has passed and the text that it has left are together the text that lay ahead of it at first and all
text that was appended. Wherever it is on the way, taking digits gives the longest run of them that
begins there, and there is no further digit behind it. -/
theorem trail_conserves {c : Cursor} (h : c.Inside) (moves : List Move) :
    ∃ later, c.trail moves = .ok later ∧ c.Conserves later (moves.flatMap Move.appended) ∧
      ∀ c' ∈ c :: later, ∃ ds stop, c'.takeDigits = .ok (ds, stop) ∧
        Text.LongestDigits ds c'.remainder ∧ c'.remainder = ds ++ stop.remainder ∧
        (stop.atEnd = true ∨ ∃ x, stop.current = .ok x ∧ Numeral.isDigit x = false) := by
  obtain ⟨behind, ahead, rfl⟩ := h.exists_between
  obtain ⟨later, htrail, hlater⟩ := exists_trail behind ahead moves
  refine ⟨later, htrail, hlater, ?_⟩
  intro c' hc'
  exact exists_takeDigits (List.forall_mem_cons.mpr ⟨h, hlater.inside⟩ c' hc')

/-- One expectation is not met, and the digits go on where text has been appended. -/
theorem trail_conserves_seam :
    let c : Cursor := ⟨[':', '>', '1'], 1⟩
    let moves : List Move := [.expect ['<'], .expect ['>'], .takeDigits, .extend ['2', '3', ';'],
      .takeDigits, .advance 5]
    let seam : Cursor := ⟨[':', '>', '1', '2', '3', ';'], 3⟩
    c.Inside ∧ ∃ later, c.trail moves = .ok later ∧ c.Conserves later ['2', '3', ';'] ∧
      later.map position = [1, 2, 3, 3, 5, 6] ∧ seam ∈ later ∧
      Text.LongestDigits ['2', '3'] seam.remainder := by
  intro c moves seam
  have hinside : c.Inside := ⟨by decide, by decide⟩
  obtain ⟨later, htrail, hconserves, hdigits⟩ := trail_conserves hinside moves
  have hlater : later = [c, ⟨c.source, 2⟩, ⟨c.source, 3⟩, seam, ⟨seam.source, 5⟩,
      ⟨seam.source, 6⟩] := Except.ok.inj (htrail.symm.trans rfl)
  have hseam : seam ∈ later := by simp [hlater]
  obtain ⟨ds, stop, htake, hlongest, -⟩ := hdigits seam (List.mem_cons_of_mem _ hseam)
  have hds : ds = ['2', '3'] := congrArg Prod.fst (Except.ok.inj (htake.symm.trans rfl))
  exact ⟨hinside, later, htrail, hconserves, by simp [hlater, c, seam], hseam, hds ▸ hlongest⟩

end Cursor

end SlotText
