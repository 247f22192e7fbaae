import SlotText.Template.Placement

/-!
# The grammar of specifiers

What a specifier looks like, apart from how it is read. It is a colon with eight parts behind it
in a fixed order, and each of them may be empty. There is one rule for every part. A rule relates
the part as it is written to what it means and to the text that lies ahead of it, and it admits
an empty part only where the text ahead does not go on with a character of that part. So a part
is taken whenever it is there, and a run of digits is taken to its end.

The flags stand in the literal directly behind the slot, and only that literal is looked at for
them. Where it ends and no digit of a width stands before its end, the width is deferred and the
next literal lies ahead; the same happens to a precision after its point.
-/
namespace SlotText

/-- The text goes on with a character of a class. -/
def Text.Begins (p : Char → Prop) : Text → Prop
  | [] => False
  | c :: _ => p c

instance {p : Char → Prop} [DecidablePred p] : DecidablePred (Text.Begins p)
  | [] => .isFalse id
  | c :: _ => inferInstanceAs (Decidable (p c))

theorem Text.begins_eq_iff {c : Char} {s : Text} :
    s.Begins (· = c) ↔ ∃ rest : Text, s = c :: rest := by
  cases s with
  | nil => simp [Begins]
  | cons d s => simp [Begins]

theorem Text.begins_append_iff {p : Char → Prop} {s t : Text} :
    Begins p (s ++ t) ↔ s.Begins p ∨ s = [] ∧ t.Begins p := by
  cases s with
  | nil => simp [Begins]
  | cons c s => simp [Begins]

/-- No run of digits in the text is longer than a limit. -/
def Text.RunsWithin (limit : Nat) (s : Text) : Prop :=
  ∀ ds : Text, ds <:+: s → (∀ c ∈ ds, Numeral.isDigit c = true) → ds.length ≤ limit

theorem Text.RunsWithin.of_length_le {limit : Nat} {s : Text} (h : s.length ≤ limit) :
    s.RunsWithin limit := by
  intro ds hinfix _
  exact Nat.le_trans hinfix.length_le h

namespace Grammar

def IsAlignment (c : Char) : Prop := ∃ a : Alignment, c = a.symbol

def IsSign (c : Char) : Prop := c = '+' ∨ c = '-'

def IsDigit (c : Char) : Prop := Numeral.isDigit c = true

instance : DecidablePred IsDigit := fun c => inferInstanceAs (Decidable (Numeral.isDigit c = true))

/-- The letters of conversions, and the sign of a dump. -/
def IsLetter (c : Char) : Prop := ∃ k : Conversion, k.symbol = [c]

/-- The parts of a specifier in the order in which they are written. -/
structure Parts where
  alignment : Text := []
  sign : Text := []
  pretty : Text := []
  zeroPad : Text := []
  width : Text := []
  precision : Text := []
  conversion : Text := []
  close : Text := []
  deriving DecidableEq, Repr

namespace Parts

/-- The colon and the parts before the width. -/
def flags (g : Parts) : Text := ':' :: (g.alignment ++ (g.sign ++ (g.pretty ++ g.zeroPad)))

def text (g : Parts) : Text :=
  g.flags ++ (g.width ++ (g.precision ++ (g.conversion ++ g.close)))

end Parts

/-- What lies ahead: the rest of the literals read so far, and those not reached yet. -/
structure Ahead where
  text : Text
  literals : List Text
  deriving DecidableEq, Repr

/-- Any character in front of an alignment sign is a fill, even an alignment sign. -/
inductive Aligned : Text → Text → Alignment → Text → Prop
  | filled (c : Char) (a : Alignment) (rest : Text) : Aligned [c, a.symbol] [c] a rest
  | bare (a : Alignment) {rest : Text} :
      ¬rest.Begins IsAlignment → Aligned [a.symbol] [' '] a rest
  | absent {rest : Text} :
      ¬rest.Begins IsAlignment → ¬Text.Begins IsAlignment rest.tail → Aligned [] [' '] .right rest

inductive Signed : Text → SignPolicy → Text → Prop
  | plus (rest : Text) : Signed ['+'] .plus rest
  | blank (rest : Text) : Signed ['-'] .blank rest
  | absent {rest : Text} : ¬rest.Begins IsSign → Signed [] .nothing rest

inductive Flagged (flag : Char) : Text → Bool → Text → Prop
  | present (rest : Text) : Flagged flag [flag] true rest
  | absent {rest : Text} : ¬rest.Begins (· = flag) → Flagged flag [] false rest

/-- Digits, or nothing. Nothing means zero, unless the text ends there. -/
inductive Measured : Ahead → Text → Amount → Ahead → Prop
  | digits {ds rest : Text} {literals : List Text} : ds ≠ [] → (∀ c ∈ ds, IsDigit c) →
      ¬rest.Begins IsDigit →
      Measured ⟨ds ++ rest, literals⟩ ds (.given (Numeral.ofText ds)) ⟨rest, literals⟩
  | zero {c : Char} {rest : Text} {literals : List Text} : ¬IsDigit c →
      Measured ⟨c :: rest, literals⟩ [] (.given 0) ⟨c :: rest, literals⟩
  | deferred (literal : Text) (literals : List Text) :
      Measured ⟨[], literal :: literals⟩ [] .deferred ⟨literal, literals⟩

/-- A precision is there exactly if a point is. -/
inductive Pointed : Ahead → Text → Amount → Ahead → Prop
  | absent {a : Ahead} : ¬a.text.Begins (· = '.') → Pointed a [] .absent a
  | point {rest ds : Text} {literals : List Text} {m : Amount} {b : Ahead} :
      Measured ⟨rest, literals⟩ ds m b → Pointed ⟨'.' :: rest, literals⟩ ('.' :: ds) m b

inductive Lettered : Text → Conversion → Text → Prop
  | letter {k : Conversion} (rest : Text) : k ≠ .natural → Lettered k.symbol k rest
  | absent {rest : Text} : ¬rest.Begins IsLetter → Lettered [] .natural rest

/-- The end of the text, a blank that stays, or a semicolon that does not. -/
inductive Closed : Text → Text → Prop
  | finish : Closed [] []
  | blank {c : Char} (rest : Text) : Text.isBlank c = true → Closed [] (c :: rest)
  | semicolon (tail : Text) : Closed [';'] tail

/-- A literal with the literals after it holds a specifier written in some parts. The text behind
it is the tail, and some of the literals are left. Behind the flags lies `r`, behind the width
`a`, and behind the precision `b`. -/
inductive Specified (literal : Text) (following : List Text) (g : Parts) (spec : Specifier)
    (tail : Text) (left : List Text) : Prop
  | intro {r : Text} {a b : Ahead} (opening : literal = g.flags ++ r)
      (aligned : Aligned g.alignment spec.fill spec.alignment
        (g.sign ++ (g.pretty ++ (g.zeroPad ++ r))))
      (signed : Signed g.sign spec.sign (g.pretty ++ (g.zeroPad ++ r)))
      (pretty : Flagged '#' g.pretty spec.pretty (g.zeroPad ++ r))
      (zeroPad : Flagged '0' g.zeroPad spec.zeroPad r)
      (width : Measured ⟨r, following⟩ g.width spec.width a)
      (precision : Pointed a g.precision spec.precision b)
      (ending : b.text = g.conversion ++ (g.close ++ tail)) (rest : b.literals = left)
      (lettered : Lettered g.conversion spec.conversion (g.close ++ tail))
      (closed : Closed g.close tail)

/-- What lies ahead of the introducing colon begins with a specifier but for its end, written in
some parts. Behind it lies `finish`. -/
inductive Unclosed (start : Ahead) (g : Parts) (spec : Specifier) (finish : Ahead) : Prop
  | intro {r : Text} {a b : Ahead}
      (opening : start.text = g.alignment ++ (g.sign ++ (g.pretty ++ (g.zeroPad ++ r))))
      (aligned : Aligned g.alignment spec.fill spec.alignment
        (g.sign ++ (g.pretty ++ (g.zeroPad ++ r))))
      (signed : Signed g.sign spec.sign (g.pretty ++ (g.zeroPad ++ r)))
      (pretty : Flagged '#' g.pretty spec.pretty (g.zeroPad ++ r))
      (zeroPad : Flagged '0' g.zeroPad spec.zeroPad r)
      (width : Measured ⟨r, start.literals⟩ g.width spec.width a)
      (precision : Pointed a g.precision spec.precision b)
      (ending : b = ⟨g.conversion ++ finish.text, finish.literals⟩)
      (lettered : Lettered g.conversion spec.conversion finish.text)

section Ends

variable {rest tail : Text} {following left : List Text} {g : Parts} {spec : Specifier}

theorem Unclosed.specified {close : Text}
    (h : Unclosed ⟨rest, following⟩ g spec ⟨close ++ tail, left⟩) (hclose : Closed close tail) :
    Specified (':' :: rest) following { g with close := close } spec tail left := by
  obtain ⟨opening, aligned, signed, pretty, zeroPad, width, precision, rfl, lettered⟩ := h
  refine .intro ?_ aligned signed pretty zeroPad width precision rfl rfl lettered hclose
  dsimp only at opening
  simp [Parts.flags, opening]

theorem Specified.unclosed (h : Specified (':' :: rest) following g spec tail left) :
    Unclosed ⟨rest, following⟩ g spec ⟨g.close ++ tail, left⟩ ∧ Closed g.close tail := by
  obtain ⟨opening, aligned, signed, pretty, zeroPad, width, precision, ending, rfl, lettered,
    closed⟩ := h
  rename_i r a b
  have hopening : rest = g.alignment ++ (g.sign ++ (g.pretty ++ (g.zeroPad ++ r))) := by
    simpa [Parts.flags] using opening
  refine ⟨.intro hopening aligned signed pretty zeroPad width precision ?_ lettered, closed⟩
  exact congrArg (Ahead.mk · b.literals) ending

end Ends

end Grammar

/-- The number of slots that an amount is taken from. -/
def Amount.absorbed : Amount → Nat
  | .deferred => 1
  | _ => 0

/-- The placement of a slot by a specifier. The slots behind it supply what is deferred, the
width before the precision. -/
def Placement.ofSpecifier (slot : Int) (spec : Specifier) (tail : Text) : Placement :=
  { slot := slot
    spec := spec
    tail := tail
    widthSlot := if spec.width = .deferred then some (slot + 1) else none
    precisionSlot :=
      if spec.precision = .deferred then some (slot + 1 + spec.width.absorbed) else none }

theorem Placement.absorbed_ofSpecifier (slot : Int) (spec : Specifier) (tail : Text) :
    (Placement.ofSpecifier slot spec tail).absorbed =
      spec.width.absorbed + spec.precision.absorbed := by
  cases hw : spec.width <;> cases hp : spec.precision <;>
    simp [Placement.absorbed, Placement.ofSpecifier, Amount.absorbed, hw, hp]

end SlotText
