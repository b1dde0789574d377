import TextAdventure.Command.NounPhrase
import TextAdventure.Command.Scope
import TextAdventure.Command.Vocabulary
import TextAdventure.Command.Words

/-!
From a player's line to a command.

Main statements:
* `CommandReader.resolve` — what a line means in a world, without changing it;
* `CommandReader.accept` — the same, filling the command slots when the line is a command.
-/

namespace TextAdventure

/-- A command whose verb and objects are known. -/
structure Command where
  verb : String
  action : Option String
  preAction : Option String
  direct : Value
  indirect : Value
  deriving Repr

/-- What a player's line was found to mean. -/
inductive Resolution where
  | parsed (command : Command)
  | which (phrase : String) (candidates : List ObjectId)
  | notUnderstood (phrase : String)
  deriving Repr

/-- What turns lines into commands: a vocabulary, and the names of the globals that hold the
actor and the location. -/
structure CommandReader where
  vocabulary : Vocabulary
  actorGlobal : String
  locationGlobal : String
  deriving Repr

/-- The command slots that a command fills. -/
def Command.slots (c : Command) : CommandSlots := ⟨.ofName c.verb, c.direct, c.indirect⟩

/-- The verb of a command to go somewhere. -/
def walkVerb : String := "WALK"

/-- The words before and after the first preposition, and the preposition. -/
structure Phrases where
  direct : List String
  preposition : Option String
  indirect : List String
  deriving DecidableEq, Repr

namespace CommandReader

/-- The direction in which some words ask to go: a direction, alone or after `WALK` or `GO`. -/
def heading? (i : CommandReader) : List String → Option String
  | [word] => i.vocabulary.direction? word
  | [verb, word] =>
    let verb := i.vocabulary.primary verb
    if verb = walkVerb ∨ verb = "GO" then i.vocabulary.direction? word else none
  | _ => none

/-- The command to go somewhere.  Its routines are those of the first rule for `WALK`. -/
def movement (i : CommandReader) (direction : String) : Command :=
  let rule := i.vocabulary.rules.find? (·.verb == walkVerb)
  { verb := walkVerb
    action := rule.map (·.action)
    preAction := rule.bind (·.preAction)
    direct := .ofName direction
    indirect := .bool false }

/-- Splits words at the first preposition. -/
def phrases (i : CommandReader) (words : List String) : Phrases :=
  let direct := words.takeWhile (! i.vocabulary.isPreposition ·)
  match words.dropWhile (! i.vocabulary.isPreposition ·) with
  | [] => ⟨direct, none, []⟩
  | preposition :: indirect => ⟨direct, some preposition, indirect⟩

/-- How many objects the phrases name. -/
def objectCount (p : Phrases) : Nat :=
  (if p.direct.isEmpty then 0 else 1) + (if p.indirect.isEmpty then 0 else 1)

/-- The objects that the player can refer to. -/
def scope (i : CommandReader) (w : World) : List ObjectId :=
  w.visibleObjects (w.global i.actorGlobal).object? (w.global i.locationGlobal).object?

/-- The value of the phrase that some words are; no words leave the slot empty. -/
def resolvePhrase (w : World) (scope : List ObjectId) (words : List String) :
    Except Resolution Value :=
  match NounPhrase.ofWords? words with
  | none => .ok (.bool false)
  | some phrase =>
    match phrase.resolve w scope with
    | .unique o => .ok (.object o)
    | .ambiguous candidates => .error (.which phrase.text candidates)
    | .missing => .error (.notUnderstood phrase.text)

/-- The command that a rule makes of its phrases. -/
def complete (i : CommandReader) (w : World) (rule : CommandRule) (p : Phrases) : Resolution :=
  let scope := i.scope w
  match resolvePhrase w scope p.direct with
  | .error resolution => resolution
  | .ok direct =>
    match resolvePhrase w scope p.indirect with
    | .error resolution => resolution
    | .ok indirect => .parsed ⟨rule.verb, some rule.action, rule.preAction, direct, indirect⟩

/-- What some words mean, noise words left out. -/
def resolveWords (i : CommandReader) (w : World) (words : List String) : Resolution :=
  match words with
  | [] => .notUnderstood ""
  | first :: _ =>
    match i.heading? words with
    | some direction => .parsed (i.movement direction)
    | none =>
      match i.vocabulary.longest words with
      | none => .notUnderstood (lowercase first)
      | some found =>
        let p := i.phrases (words.drop found.consumed)
        match found.select p.preposition (objectCount p) with
        | none => .notUnderstood (lowercase (" ".intercalate words))
        | some rule => i.complete w rule p

/-- The words of a player's line that carry meaning. -/
def meaningfulWords (i : CommandReader) (input : String) : List String :=
  (inputWords input).filter (! i.vocabulary.isNoise ·)

/-- What a player's line means in a world. -/
def resolve (i : CommandReader) (w : World) (input : String) : Resolution :=
  i.resolveWords w (i.meaningfulWords input)

/-- What a player's line means, and the world with the slots of the command it is. -/
def accept (i : CommandReader) (w : World) (input : String) : Resolution × World :=
  match i.resolve w input with
  | .parsed command => (.parsed command, { w with slots := command.slots })
  | other => (other, w)

end CommandReader

end TextAdventure
