import TextAdventure.World.Tree

/-!
Noun phrases.

The last word of a phrase is its noun, and the words before it are adjectives.

Main statements:
* `NounPhrase.resolve` — the object in scope that a phrase means, never guessing between
  several.
-/

namespace TextAdventure

/-- A phrase that refers to an object. -/
structure NounPhrase where
  adjectives : List String
  noun : String
  deriving DecidableEq, Repr

/-- What a phrase was found to mean. -/
inductive Referent where
  | unique (o : ObjectId)
  | ambiguous (candidates : List ObjectId)
  | missing
  deriving DecidableEq, Repr

namespace NounPhrase

/-- The phrase that some words are; no words are no phrase. -/
def ofWords? (words : List String) : Option NounPhrase :=
  match words.getLast? with
  | some noun => some ⟨words.dropLast, noun⟩
  | none => none

/-- The phrase in small letters. -/
def text (p : NounPhrase) : String := " ".intercalate ((p.adjectives ++ [p.noun]).map lowercase)

/-- Whether an object has the noun and all adjectives of a phrase. -/
def describes (p : NounPhrase) (o : GameObject) : Bool :=
  o.hasSynonym p.noun && p.adjectives.all o.hasAdjective

/-- The objects in scope for which a test holds. -/
def matching (w : World) (scope : List ObjectId) (test : GameObject → Bool) : List ObjectId :=
  scope.filter fun o =>
    match w.object? o with
    | some object => test object
    | none => false

/-- The objects in scope that a phrase may mean.  A single word that is no object's noun is
taken as an adjective. -/
def candidates (p : NounPhrase) (w : World) (scope : List ObjectId) : List ObjectId :=
  let found := matching w scope p.describes
  if found.isEmpty && p.adjectives.isEmpty then matching w scope (·.hasAdjective p.noun)
  else found

/-- What a phrase means among the objects in scope. -/
def resolve (p : NounPhrase) (w : World) (scope : List ObjectId) : Referent :=
  match p.candidates w scope with
  | [] => .missing
  | [o] => .unique o
  | many => .ambiguous many

end NounPhrase

end TextAdventure
