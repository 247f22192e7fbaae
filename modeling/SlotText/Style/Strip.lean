import SlotText.Style.Basic

/-!
# Text without styles

The plain text behind a terminal text. In every line only what follows the last carriage return
is kept. Control sequences are taken out, leftmost first, and of what remains the characters
that move the cursor without showing anything are dropped. A character set selection takes the
character after it along.
-/
namespace SlotText.Text

def inRange (low high c : Char) : Bool := low ≤ c && c ≤ high

/-- What follows the terminator of an operating system command, if there is one. -/
def afterTerminator? : Text → Option Text
  | [] => none
  | '\x1b' :: '\\' :: rest => some rest
  | _ :: rest => afterTerminator? rest

/-- What follows a sequence of parameters, intermediate characters and a final character. -/
def afterParameters? (s : Text) : Option Text :=
  match (s.dropWhile (inRange '0' '?')).dropWhile (inRange ' ' '/') with
  | c :: rest => if inRange '@' '~' c then some rest else none
  | [] => none

/-- The sequences an escape character can begin. -/
inductive Sequence where
  | ordinary
  | characterSet
  deriving DecidableEq, Repr

/-- The sequence that stands after an escape character, and what follows it. -/
def sequence? : Text → Option (Sequence × Text)
  | [] => none
  | c :: rest =>
    if inRange '0' '?' c then some (.ordinary, rest)
    else
      let command := if c = ']' then afterTerminator? rest else none
      match command with
      | some rest' => some (.ordinary, rest')
      | none =>
        if c = '(' then some (.characterSet, rest)
        else if inRange '@' 'Z' c || inRange '\\' '_' c then some (.ordinary, rest)
        else if c = '[' then (afterParameters? rest).map fun rest' => (.ordinary, rest')
        else none

/-- The characters of a line outside of control sequences. `skipping` is set right after a
character set selection. Every round consumes a character, so the length is fuel enough. -/
def visible : Nat → Bool → Text → Text
  | 0, _, _ => []
  | _, _, [] => []
  | fuel + 1, skipping, c :: rest =>
    let follow := if c = '\x1b' then sequence? rest else none
    match follow with
    | some (.ordinary, rest') => visible fuel false rest'
    | some (.characterSet, rest') => visible fuel true rest'
    | none => (if skipping then [] else [c]) ++ visible fuel false rest

/-- What follows the last carriage return of a line. -/
def afterReturn (line : Text) : Text :=
  (line.reverse.takeWhile (· != '\r')).reverse

/-- Whether a character is dropped although it stands outside of control sequences. -/
def isMotion (c : Char) : Bool :=
  c == '\x07' || c == '\x08' || c == '\x0b' || c == '\x0c' || c == '\x0d'

def stripLine (line : Text) : Text :=
  let line := afterReturn line
  (visible line.length false line).filter (!isMotion ·)

/-- The lines of a text; there is always at least one. -/
def lines : Text → List Text
  | [] => [[]]
  | c :: rest =>
    if c = '\n' then [] :: lines rest
    else match lines rest with
      | [] => [[c]]
      | line :: more => (c :: line) :: more

/-- The plain text behind a terminal text. -/
def stripStyles (s : Text) : Text := List.intercalate ['\n'] ((lines s).map stripLine)

/-- The number of characters that a terminal text shows. -/
def trueLength (s : Text) : Nat := (stripStyles s).length

theorem lines_ne_nil (s : Text) : lines s ≠ [] := by
  cases s with
  | nil => simp [lines]
  | cons c rest =>
    rw [lines]
    split
    · simp
    · split <;> simp

theorem intercalate_lines (s : Text) : List.intercalate ['\n'] (lines s) = s := by
  induction s with
  | nil => rfl
  | cons c rest ih =>
    rw [lines]
    obtain ⟨line, more, hl⟩ := List.exists_cons_of_ne_nil (lines_ne_nil rest)
    rw [hl] at ih ⊢
    split
    · next h =>
      rw [List.intercalate_cons_cons, ih, h]
      rfl
    · cases more with
      | nil =>
        rw [List.intercalate_singleton] at ih ⊢
        rw [ih]
      | cons next more =>
        rw [List.intercalate_cons_cons] at ih ⊢
        rw [← ih]
        rfl

end SlotText.Text
