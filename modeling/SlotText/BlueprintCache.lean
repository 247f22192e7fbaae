import SlotText.Template.Blueprint
import SlotText.Binary64.Shortest

/-!
# A cache of blueprints

The blueprints of the templates compiled last, at most as many as the capacity. Entries are kept
in the order of their last use, the least recent first, and the first one gives way to a new
entry when the cache is full. A template that cannot be compiled leaves the entries as they are
and counts as a miss every time.
-/
namespace SlotText

structure BlueprintCache where
  capacity : Nat
  capacity_pos : 0 < capacity
  entries : List (List Text × Blueprint) := []
  hits : Nat := 0
  misses : Nat := 0
  deriving DecidableEq, Repr

namespace BlueprintCache

def usualCapacity : Nat := 1000

/-- An empty cache; its capacity must be positive. -/
def ofCapacity (n : Int) : Outcome BlueprintCache :=
  if h : 0 < n.toNat then .ok { capacity := n.toNat, capacity_pos := h }
  else .error .capacityNotPositive

def size (c : BlueprintCache) : Nat := c.entries.length

def keys (c : BlueprintCache) : List (List Text) := c.entries.map (·.1)

/-- The blueprint held for some literals. -/
def find? (c : BlueprintCache) (segments : List Text) : Option Blueprint :=
  c.entries.lookup segments

/-- The entries without those for some literals. -/
def without (entries : List (List Text × Blueprint)) (segments : List Text) :
    List (List Text × Blueprint) :=
  entries.filter fun e => e.1 ≠ segments

/-- Puts an entry last, in place of the first one if there is no room. -/
def store (c : BlueprintCache) (segments : List Text) (b : Blueprint) : BlueprintCache :=
  let kept := if c.capacity ≤ c.entries.length then c.entries.drop 1 else c.entries
  { c with entries := kept ++ [(segments, b)] }

/-- The blueprint of some literals, compiled unless it is held, and the cache afterwards. -/
def request (c : BlueprintCache) (segments : List Text) : Outcome Blueprint × BlueprintCache :=
  match c.find? segments with
  | some b =>
    (.ok b, { c with entries := without c.entries segments ++ [(segments, b)], hits := c.hits + 1 })
  | none =>
    let c := { c with misses := c.misses + 1 }
    match Blueprint.ofSegments segments with
    | .ok b => (.ok b, c.store segments b)
    | .error e => (.error e, c)

def clear (c : BlueprintCache) : BlueprintCache :=
  { c with entries := [], hits := 0, misses := 0 }

/-- The share of requests that were hits, in percent and rounded to two places. -/
def hitRate (c : BlueprintCache) : Binary64 :=
  if c.hits + c.misses = 0 then .ofRatio false 0 1
  else
    let share := (Binary64.ofRatio false c.hits (c.hits + c.misses)).ratio
    let percent := (Binary64.ofRatio false (share.1 * 100) share.2).ratio
    Binary64.roundToHundredths percent.1 percent.2

end BlueprintCache

end SlotText
