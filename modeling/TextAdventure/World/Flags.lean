import TextAdventure.Text.Letter

/-!
Flags.

A world knows flags by name; each name has a bit number, given in the order of declaration.  An
object's flags are a set of bit numbers.

Main statements:
* `FlagSet.contains_insert`, `FlagSet.contains_remove` — a set changes in one bit;
* `FlagVocabulary.declare` — a name declared again keeps its bit.

Design notes.  A name is looked up by its place among the names.  A store that is changed in place
finds it by an index instead, which agrees with the places.
-/

namespace TextAdventure

/-- The flag names of a world, in canonical spelling; a name's place is its bit number. -/
structure FlagVocabulary where
  names : List String
  deriving DecidableEq, Repr, Inhabited

namespace FlagVocabulary

def empty : FlagVocabulary := ⟨[]⟩

/-- The bit number of a flag. -/
def bit? (v : FlagVocabulary) (name : String) : Option Nat := v.names.idxOf? (canonical name)

def contains (v : FlagVocabulary) (name : String) : Bool := (v.bit? name).isSome

/-- The name of a bit number. -/
def name? (v : FlagVocabulary) (bit : Nat) : Option String := v.names[bit]?

def size (v : FlagVocabulary) : Nat := v.names.length

/-- Makes a flag known, and gives its bit number. -/
def declare (v : FlagVocabulary) (name : String) : FlagVocabulary × Nat :=
  match v.bit? name with
  | some bit => (v, bit)
  | none => (⟨v.names ++ [canonical name]⟩, v.names.length)

end FlagVocabulary

/-- A set of bit numbers.  The room a set takes, in words of 64 bits, grows with its largest
member and never shrinks; two sets are equal when members and room agree. -/
structure FlagSet where
  mask : Nat
  words : Nat
  deriving DecidableEq, Repr, Inhabited

namespace FlagSet

def empty : FlagSet := ⟨0, 0⟩

def contains (s : FlagSet) (bit : Nat) : Bool := s.mask.testBit bit

def insert (s : FlagSet) (bit : Nat) : FlagSet :=
  ⟨s.mask ||| (1 <<< bit), max s.words (bit / 64 + 1)⟩

def remove (s : FlagSet) (bit : Nat) : FlagSet :=
  if s.contains bit then { s with mask := s.mask ^^^ (1 <<< bit) } else s

def isEmpty (s : FlagSet) : Bool := s.mask == 0

/-- The members in ascending order. -/
def toList (s : FlagSet) : List Nat := (List.range (64 * s.words)).filter s.contains

@[simp] theorem contains_empty (bit : Nat) : empty.contains bit = false := by
  simp [empty, contains]

theorem contains_insert (s : FlagSet) (bit other : Nat) :
    (s.insert bit).contains other = (decide (bit = other) || s.contains other) := by
  simp [insert, contains, Nat.testBit_or, Nat.one_shiftLeft, Nat.testBit_two_pow, Bool.or_comm]

theorem contains_remove (s : FlagSet) (bit other : Nat) :
    (s.remove bit).contains other = (!decide (bit = other) && s.contains other) := by
  rw [remove]
  split
  · rename_i h
    simp only [contains, Nat.testBit_xor, Nat.one_shiftLeft, Nat.testBit_two_pow] at h ⊢
    by_cases heq : bit = other
    · subst heq; simp [h]
    · simp [heq]
  · rename_i h
    by_cases heq : bit = other
    · subst heq; simpa using h
    · simp [heq]

end FlagSet

end TextAdventure
