import TextAdventure.Failure
import TextAdventure.Text.Letter

/-!
Rules: the shapes that commands may take.

A rule such as `PUT OBJECT IN OBJECT = V-PUT PRE-PUT` has a verb phrase, up to the first object,
then objects with prepositions between them, and behind `=` the routine to run and perhaps one
to run before it.

Main statements:
* `CommandRule.ofWords` — the rule that some words declare.
-/

namespace TextAdventure

/-- A shape of commands.  The verb phrase is the verb and the words that follow it at once. -/
structure CommandRule where
  verb : String
  verbTail : List String
  objects : Nat
  prepositions : List String
  action : String
  preAction : Option String
  deriving DecidableEq, Repr

namespace CommandRule

def verbPhrase (r : CommandRule) : List String := r.verb :: r.verbTail

/-- The preposition by which the rule is chosen. -/
def preposition? (r : CommandRule) : Option String := r.prepositions.head?

/-- The word that stands for an object in a rule. -/
def objectWord : String := "OBJECT"

/-- The rule that some words declare. -/
def ofWords (words : List String) : Except Fault CommandRule :=
  let words := words.map canonical
  let pattern := words.takeWhile (· ≠ "=")
  match words.dropWhile (· ≠ "=") with
  | [] => .error (.unsupportedSyntax "SYNTAX without =")
  | [_] => .error (.unsupportedSyntax "SYNTAX without an action")
  | _ :: action :: rest =>
    match pattern.takeWhile (· ≠ objectWord) with
    | [] => .error (.unsupportedSyntax "SYNTAX without a verb")
    | verb :: tail =>
      let slots := pattern.dropWhile (· ≠ objectWord)
      .ok
        { verb := verb
          verbTail := tail
          objects := slots.count objectWord
          prepositions := slots.filter (· ≠ objectWord)
          action := action
          preAction := rest.head? }

end CommandRule

end TextAdventure
