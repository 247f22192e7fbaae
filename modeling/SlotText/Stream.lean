import SlotText.Value.Text

/-!
# Output streams

Everything written to a stream so far, and whether the stream can tell that it is a terminal.
A formatted text is written in its decorated form when colours are on, and they are on by default
where the stream is a terminal. A text that cannot be rendered leaves the stream as it is.
-/
namespace SlotText

structure Stream where
  written : Text := []
  /-- Absent if the stream cannot tell. -/
  terminal : Option Bool := none
  deriving DecidableEq, Repr

namespace Stream

def isTerminal (s : Stream) : Bool := s.terminal.getD false

/-- What a value is written as. -/
def output (v : Value) (colors : Bool) : Outcome Text :=
  match v with
  | .formatted plain decorated => if colors then decorated else plain
  | v => v.plain

def print (s : Stream) (v : Value) (newline : Bool) (colors : Option Bool) : Outcome Stream := do
  let text ← output v (colors.getD s.isTerminal)
  return { s with written := s.written ++ text ++ if newline then ['\n'] else [] }

end Stream

/-- The two streams a program writes to. -/
structure Console where
  out : Stream
  err : Stream
  deriving DecidableEq, Repr

namespace Console

inductive Target where
  | out
  | err
  deriving DecidableEq, Repr

def print (c : Console) (target : Target) (v : Value) (newline : Bool) (colors : Option Bool) :
    Outcome Console :=
  match target with
  | .out => (c.out.print v newline colors).map fun s => { c with out := s }
  | .err => (c.err.print v newline colors).map fun s => { c with err := s }

def printOut (c : Console) (v : Value) (colors : Option Bool) : Outcome Console :=
  c.print .out v false colors

/-- Prints a line; without a value the line is empty. -/
def println (c : Console) (v : Option Value) (colors : Option Bool) : Outcome Console :=
  c.print .out (v.getD (.text [])) true colors

def eprint (c : Console) (v : Value) (colors : Option Bool) : Outcome Console :=
  c.print .err v false colors

def eprintln (c : Console) (v : Option Value) (colors : Option Bool) : Outcome Console :=
  c.print .err (v.getD (.text [])) true colors

end Console

end SlotText
