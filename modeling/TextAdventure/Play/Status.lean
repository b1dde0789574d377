import TextAdventure.Text.Letter

/-!
What a turn's text says about the game.

The front end watches the text of each turn for the phrases that announce the end of play.

Main statements:
* `Status.ofText` — which ends a text announces, in any letter case.
-/

namespace TextAdventure

/-- Whether one text stands somewhere in another. -/
def holdsText (part : List Char) : List Char → Bool
  | [] => part.isEmpty
  | c :: cs => part.isPrefixOf (c :: cs) || holdsText part cs

/-- Which ends of play a text announces. -/
structure Status where
  isDead : Bool
  isComplete : Bool
  deriving DecidableEq, Repr

namespace Status

/-- The ends of play that a text announces. -/
def ofText (text : String) : Status :=
  let text := (lowercase text).toList
  { isDead := holdsText "you have died".toList text
    isComplete := holdsText "you have won".toList text || holdsText "game over".toList text }

/-- Whether play cannot go on. -/
def isOver (s : Status) : Bool := s.isDead || s.isComplete

end Status

end TextAdventure
