import TextAdventure.Number.Decimal

/-!
Handles: how values refer to objects and tables.

Objects and tables are numbered in the order in which they come into being and never go away,
so a handle keeps its meaning for as long as its world exists.  A handle has 32 bits, so in one
world there are only so many of each kind.
-/

namespace TextAdventure

/-- The number of an object. -/
structure ObjectId where
  index : Nat
  deriving DecidableEq, Repr, Inhabited

/-- The number of a table. -/
structure TableId where
  index : Nat
  deriving DecidableEq, Repr, Inhabited

/-- How many handles there are of each kind. -/
def handleLimit : Nat := UInt32.size

/-- How messages call an object that has no name. -/
def ObjectId.label (o : ObjectId) : String := "#" ++ intText o.index

/-- How messages call a table. -/
def TableId.label (t : TableId) : String := "table#" ++ intText t.index

end TextAdventure
