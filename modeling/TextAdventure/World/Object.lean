import TextAdventure.NameMap
import TextAdventure.Value
import TextAdventure.World.Flags

/-!
Objects: rooms, things, the player, and whatever else has a place in the game.

An object has a name, flags, properties, the words a player may call it by, perhaps a routine
that reacts to commands, and its place in the tree of containment.

Main statements:
* `GameObject` — an object of a world;
* `ObjectSpec` — what has to be said to bring an object into being.
-/

namespace TextAdventure

/-- An object of a world.  Names and words are in canonical spelling; children come first child
first. -/
structure GameObject where
  name : String
  flags : FlagSet
  properties : NameMap Value
  synonyms : List String
  adjectives : List String
  action : Option String
  parent : Option ObjectId
  children : List ObjectId
  deriving Repr, Inhabited

namespace GameObject

/-- Whether a word is one of the object's nouns. -/
def hasSynonym (o : GameObject) (word : String) : Bool := o.synonyms.any (sameLetters · word)

/-- Whether a word is one of the object's adjectives. -/
def hasAdjective (o : GameObject) (word : String) : Bool := o.adjectives.any (sameLetters · word)

/-- The value of a property that the object itself carries. -/
def ownProperty? (o : GameObject) (name : String) : Option Value :=
  o.properties.get? (canonical name)

end GameObject

/-- A new object's name, flags, properties and words, in any letter case. -/
structure ObjectSpec where
  name : String
  flags : List String
  properties : List (String × Value)
  synonyms : List String
  adjectives : List String
  action : Option String
  deriving Repr, Inhabited

/-- A new object about which only the name is known. -/
def ObjectSpec.named (name : String) : ObjectSpec := ⟨name, [], [], [], [], none⟩

/-- The object that is brought into being, given the bits of its flags; it has no place yet. -/
def ObjectSpec.object (spec : ObjectSpec) (flags : FlagSet) : GameObject where
  name := canonical spec.name
  flags := flags
  properties := NameMap.ofList (spec.properties.map fun (p, value) => (canonical p, value))
  synonyms := spec.synonyms.map canonical
  adjectives := spec.adjectives.map canonical
  action := spec.action.map canonical
  parent := none
  children := []

end TextAdventure
