import SlotText.Value.Text

/-!
# Dumps

The structure of a value as a tree: a leaf is a text, a branch has an opening, a closing and
labelled children. The tree is laid out on one line or with every child on a line of its own.
A leaf that cannot be shown is replaced by a note with the reason, so every value has a dump.
-/
namespace SlotText

inductive Dump where
  | leaf (s : Text)
  /-- `single` keeps the comma after an only child. -/
  | branch (opening closing empty : Text) (single : Bool) (children : List (Text × Dump))

namespace Dump

/-- The form of a value, or a note why there is none. -/
def leafText (v : Value) : Text :=
  match v.shown with
  | .ok s => s
  | .error e => "<repr-error ".toList ++ Text.quoted e.message ++ ['>']

mutual

def ofValue : Value → Dump
  | .list xs => branch ['['] [']'] "[]".toList false (ofItems xs)
  | .tuple xs => branch ['('] [')'] "()".toList true (ofItems xs)
  | .dict es => branch ['\x7b'] ['\x7d'] ['\x7b', '\x7d'] false (ofEntries es)
  | .set xs => branch ['\x7b'] ['\x7d'] "set()".toList false (ofItems xs)
  | .frozenSet xs =>
    branch "frozenset(\x7b".toList ['\x7d', ')'] "frozenset()".toList false (ofItems xs)
  | .record name fields =>
    branch (name ++ ['(']) [')'] (name ++ ['(', ')']) false (ofFields fields)
  | v => leaf (leafText v)

def ofItems : List Value → List (Text × Dump)
  | [] => []
  | v :: vs => ([], ofValue v) :: ofItems vs

/-- The key of an entry is shown on one line, whatever it is. -/
def ofEntries : List (Value × Value) → List (Text × Dump)
  | [] => []
  | (k, v) :: es => (leafText k ++ [':', ' '], ofValue v) :: ofEntries es

def ofFields : List (Text × Value) → List (Text × Dump)
  | [] => []
  | (name, v) :: fs => (name ++ ['='], ofValue v) :: ofFields fs

end

mutual

/-- The dump on one line. -/
def compact : Dump → Text
  | leaf s => s
  | branch _ _ empty _ [] => empty
  | branch opening closing _ single (c :: cs) =>
    opening ++ compactChildren single (c :: cs) ++ closing

def compactChildren (single : Bool) : List (Text × Dump) → Text
  | [] => []
  | [(label, d)] => label ++ d.compact ++ (if single then [','] else [])
  | (label, d) :: cs => label ++ d.compact ++ Value.comma ++ compactChildren false cs

end

def indentation : Nat := 2

mutual

/-- The dump with every child on a line of its own, below an indentation of `depth` blanks. -/
def expanded (depth : Nat) : Dump → Text
  | leaf s => s
  | branch _ _ empty _ [] => empty
  | branch opening closing _ single (c :: cs) =>
    opening ++ expandedChildren (depth + indentation) single (c :: cs) ++
      '\n' :: List.replicate depth ' ' ++ closing

/-- Children, each after a line break; commas stand between them, and after an only child that
keeps its own. -/
def expandedChildren (depth : Nat) (single : Bool) : List (Text × Dump) → Text
  | [] => []
  | [(label, d)] =>
    '\n' :: List.replicate depth ' ' ++ label ++ d.expanded depth ++ (if single then [','] else [])
  | (label, d) :: cs =>
    '\n' :: List.replicate depth ' ' ++ label ++ d.expanded depth ++ ',' ::
      expandedChildren depth false cs

end

end Dump

/-- The dump of a value, on one line or laid out over several. -/
def Value.dump (v : Value) (layOut : Bool) : Text :=
  if layOut then (Dump.ofValue v).expanded 0 else (Dump.ofValue v).compact

end SlotText
