import TextAdventure.Command.Rule
import TextAdventure.NameMap

/-!
The words a game understands.

Main statements:
* `Vocabulary.primary` — the word that a synonym stands for;
* `Vocabulary.longest` — the rules with the longest verb phrase at the front of some words;
* `RuleMatch.select` — of those, the rule that fits the objects and the preposition.
-/

namespace TextAdventure

/-- The rules, synonyms, noise words, directions and prepositions of a game, in canonical
spelling. -/
structure Vocabulary where
  rules : List CommandRule
  synonyms : NameMap String
  noise : List String
  directions : List String
  prepositions : List String
  deriving Repr, Inhabited

/-- The rules whose verb phrase begins a player's line, and how many words it takes. -/
structure RuleMatch where
  rules : List CommandRule
  consumed : Nat
  deriving DecidableEq, Repr

namespace Vocabulary

def empty : Vocabulary := ⟨[], .empty, [], [], []⟩

/-! ### Declaring words -/

/-- Adds a rule, and with it its prepositions. -/
def addRule (v : Vocabulary) (rule : CommandRule) : Vocabulary :=
  { v with rules := v.rules ++ [rule], prepositions := v.prepositions ++ rule.prepositions }

/-- Makes words stand for a primary word. -/
def addSynonyms (v : Vocabulary) (primary : String) (words : List String) : Vocabulary :=
  let primary := canonical primary
  { v with synonyms := words.foldl (fun m word => m.insert (canonical word) primary) v.synonyms }

/-- Adds words that are passed over. -/
def addNoise (v : Vocabulary) (words : List String) : Vocabulary :=
  { v with noise := v.noise ++ words.map canonical }

/-- Adds a direction. -/
def addDirection (v : Vocabulary) (word : String) : Vocabulary :=
  let word := canonical word
  if v.directions.contains word then v else { v with directions := v.directions ++ [word] }

/-- Adds a preposition. -/
def addPreposition (v : Vocabulary) (word : String) : Vocabulary :=
  { v with prepositions := v.prepositions ++ [canonical word] }

/-! ### Asking about words -/

/-- The word that a synonym stands for; any other word stands for itself. -/
def primary (v : Vocabulary) (word : String) : String := (v.synonyms.get? word).getD word

/-- Whether a word, in any letter case, is the verb of a rule or a synonym of one. -/
def isVerb (v : Vocabulary) (word : String) : Bool :=
  let word := v.primary (canonical word)
  v.rules.any (·.verb == word)

def isNoise (v : Vocabulary) (word : String) : Bool := v.noise.contains word

def isPreposition (v : Vocabulary) (word : String) : Bool := v.prepositions.contains word

/-- The direction that a word names. -/
def direction? (v : Vocabulary) (word : String) : Option String :=
  let word := v.primary word
  if v.directions.contains word then some word else none

/-! ### Finding rules -/

/-- Whether the verb phrase of a rule stands at the front of some words.  The first word may be
a synonym of the verb. -/
def fits (v : Vocabulary) (words : List String) (rule : CommandRule) : Bool :=
  match words with
  | [] => false
  | first :: rest => v.primary first == rule.verb && rule.verbTail.isPrefixOf rest

/-- The rules with the longest verb phrase at the front of some words. -/
def longest (v : Vocabulary) (words : List String) : Option RuleMatch :=
  let candidates := v.rules.filter (v.fits words)
  match (candidates.map (·.verbPhrase.length)).max? with
  | none => none
  | some consumed =>
    some ⟨candidates.filter (·.verbPhrase.length == consumed), consumed⟩

end Vocabulary

/-- The first rule for the given number of objects with the given preposition, or else the
first for that number of objects. -/
def RuleMatch.select (m : RuleMatch) (preposition : Option String) (objects : Nat) :
    Option CommandRule :=
  let fitting := m.rules.filter (·.objects == objects)
  match fitting.find? (·.preposition? == preposition) with
  | some rule => some rule
  | none => fitting.head?

end TextAdventure
