import TextAdventure.Text.Blank
import TextAdventure.Text.Letter

/-!
The words of a player's line.

Blanks and double quotes part words; punctuation is dropped wherever it stands; letters are
raised.

Main statements:
* `inputWords` — the words of a line, in canonical spelling.
-/

namespace TextAdventure

/-- Punctuation that a player's line may hold anywhere without meaning. -/
def isPunctuation (c : Char) : Bool := ['.', ',', '!', '?', ';', ':', '\''].contains c

/-- What parts the words of a player's line. -/
def partsWords (c : Char) : Bool := isBlank c || c == '"'

/-- A field of a player's line as a word. -/
def cleanWord (field : List Char) : List Char :=
  (field.filter (! isPunctuation ·)).map Char.toUpper

/-- The words of a player's line. -/
def inputWords (input : String) : List String :=
  (((splitBy partsWords input.toList).map cleanWord).filter (! ·.isEmpty)).map String.ofList

end TextAdventure
