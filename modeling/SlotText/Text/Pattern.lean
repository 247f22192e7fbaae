import SlotText.Text.Word

/-!
# Patterns

Patterns over texts with named groups. A pattern is tried at one place of a text and goes for
the first way to match in a fixed order: the first of two alternatives, the most or the fewest
repetitions. A later part that fails sends it back to the next way. What follows a pattern is
passed to it as a continuation, so going back needs no stack of its own, and a repetition makes
no round that consumes nothing, so every attempt ends.
-/
namespace SlotText

/-- A place in a text: what lies before it, backwards, how much that is, and what follows. -/
structure Place where
  passed : Text
  position : Nat
  rest : Text
  deriving DecidableEq, Repr

namespace Place

def start (s : Text) : Place := ⟨[], 0, s⟩

/-- One character further; the end stays where it is. -/
def step (p : Place) : Place :=
  match p.rest with
  | [] => p
  | c :: rest => ⟨c :: p.passed, p.position + 1, rest⟩

/-- Whether exactly one of the two neighbours of a place is a word character. -/
def atWordBoundary (p : Place) : Bool :=
  p.passed.head?.any Text.isWord != p.rest.head?.any Text.isWord

end Place

/-- Patterns whose groups are named by elements of `γ`. -/
inductive Pattern (γ : Type) where
  | nothing
  | char (accepts : Char → Bool)
  | next (first second : Pattern γ)
  | either (first second : Pattern γ)
  /-- At least `least` rounds, and at most `extra` more if a limit is given. -/
  | rounds (greedy : Bool) (least : Nat) (extra : Option Nat) (body : Pattern γ)
  | group (name : γ) (body : Pattern γ)
  | boundary (wanted : Bool)
  /-- The character before the place, if there is one, is not accepted. -/
  | notAfter (accepts : Char → Bool)

/-- The groups that took part, each with the stretch it covers. -/
abbrev Marks (γ : Type) := List (γ × Nat × Nat)

namespace Pattern

variable {γ : Type}

/-- What happens after a pattern has matched up to a place. -/
abbrev Continuation (γ : Type) := Place → Marks γ → Option (Place × Marks γ)

abbrev Matcher (γ : Type) := Place → Marks γ → Continuation γ → Option (Place × Marks γ)

def exactly (body : Matcher γ) : Nat → Matcher γ
  | 0 => fun p m k => k p m
  | n + 1 => fun p m k => body p m fun p' m' => exactly body n p' m' k

/-- Up to a number of rounds, each of which has to make progress. -/
def upTo (greedy : Bool) (body : Matcher γ) : Nat → Matcher γ
  | 0 => fun p m k => k p m
  | n + 1 => fun p m k =>
    let further : Continuation γ := fun p' m' =>
      if p.position < p'.position then upTo greedy body n p' m' k else none
    if greedy then
      match body p m further with
      | some found => some found
      | none => k p m
    else
      match k p m with
      | some found => some found
      | none => body p m further

/-- All ways to match, the first one that its continuation accepts. A repetition without a limit
of its own makes at most `most` extra rounds, for which the length of the text is enough. -/
def run (most : Nat) : Pattern γ → Matcher γ
  | nothing => fun p m k => k p m
  | char accepts => fun p m k =>
    match p.rest with
    | [] => none
    | c :: _ => if accepts c then k p.step m else none
  | next first second => fun p m k => first.run most p m fun p' m' => second.run most p' m' k
  | either first second => fun p m k =>
    match first.run most p m k with
    | some found => some found
    | none => second.run most p m k
  | rounds greedy least extra body => fun p m k =>
    exactly (body.run most) least p m fun p' m' =>
      upTo greedy (body.run most) (extra.getD most) p' m' k
  | group name body => fun p m k =>
    body.run most p m fun p' m' => k p' (m' ++ [(name, p.position, p'.position)])
  | boundary wanted => fun p m k => if p.atWordBoundary = wanted then k p m else none
  | notAfter accepts => fun p m k => if p.passed.head?.any accepts then none else k p m

/-- The end of a match that starts at a place, and its groups. -/
def matchAt? (r : Pattern γ) (most : Nat) (p : Place) : Option (Place × Marks γ) :=
  r.run most p [] fun p' m' => some (p', m')

/-- The groups of all matches from a place on, each search starting where the last match ended.
Every round moves at least one character on, so the length of the rest is fuel enough. -/
def marksFrom (r : Pattern γ) (most : Nat) : Nat → Place → Marks γ
  | 0, _ => []
  | fuel + 1, p =>
    match r.matchAt? most p with
    | some (p', marks) =>
      marks ++ marksFrom r most fuel (if p.position < p'.position then p' else p.step)
    | none => marksFrom r most fuel p.step

def marks (r : Pattern γ) (s : Text) : Marks γ := r.marksFrom s.length (s.length + 1) (.start s)

def sequence : List (Pattern γ) → Pattern γ
  | [] => nothing
  | [r] => r
  | r :: rs => next r (sequence rs)

def anyOf : List (Pattern γ) → Pattern γ
  | [] => char fun _ => false
  | [r] => r
  | r :: rs => either r (anyOf rs)

def one (c : Char) : Pattern γ := char (· == c)

def literal (s : String) : Pattern γ := sequence (s.toList.map one)

def optional (r : Pattern γ) : Pattern γ := rounds true 0 (some 1) r

def many (r : Pattern γ) : Pattern γ := rounds true 0 none r

def several (r : Pattern γ) : Pattern γ := rounds true 1 none r

def fewest (least : Nat) (r : Pattern γ) : Pattern γ := rounds false least none r

def times (n : Nat) (r : Pattern γ) : Pattern γ := rounds true n (some 0) r

def between (least most : Nat) (r : Pattern γ) : Pattern γ :=
  rounds true least (some (most - least)) r

end Pattern

end SlotText
