/-!
Sets of code points.

A property of characters is held as the ranges of code points that have it.

Main statements:
* `CodePointSet.contains_iff` — a character is in a set when its code point is in one of the
  ranges.
-/

namespace TextAdventure.Text

/-- A set of code points as ranges from a first to a last code point, both included. -/
structure CodePointSet where
  ranges : List (Nat × Nat)
  deriving DecidableEq, Repr

namespace CodePointSet

/-- Whether the code point of a character is in the set. -/
def contains (s : CodePointSet) (c : Char) : Bool :=
  s.ranges.any fun range => range.1 ≤ c.toNat && c.toNat ≤ range.2

theorem contains_iff {s : CodePointSet} {c : Char} :
    s.contains c = true ↔ ∃ range ∈ s.ranges, range.1 ≤ c.toNat ∧ c.toNat ≤ range.2 := by
  simp [contains]

end CodePointSet

end TextAdventure.Text
