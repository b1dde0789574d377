import TextAdventure.Host.Backspace
import TextAdventure.Play.Console

/-!
Lines of a stream.

A stream of characters is cut into lines; the lines of a form that is still open are joined, and
backspaces are carried out.

Main statements:
* `joinLine` — one more line of a stream;
* `entriesOf` — what the player enters, from all lines of a stream.
-/

namespace TextAdventure

/-- A line of a stream without its line break, and the line break. -/
def splitLineEnd (raw : List Char) : List Char × List Char :=
  match raw.reverse with
  | '\n' :: '\r' :: rest => (rest.reverse, ['\r', '\n'])
  | '\n' :: rest => (rest.reverse, ['\n'])
  | _ => (raw, [])

/-- Adds a line of a stream to the lines before it: a text with no open form, or the lines that
wait for more.  Backspaces are carried out on all of the lines, so that one at the start of a line
takes back the line break before it. -/
def joinLine (before raw : List Char) : Sum (List Char) (List Char) :=
  let (line, lineEnd) := splitLineEnd raw
  let text := Text.applyBackspaces (before ++ line)
  if openBrackets .code text ≤ 0 then .inl text else .inr (text ++ lineEnd)

/-- The lines of a text with their line breaks. -/
def rawLines : List Char → List (List Char)
  | [] => []
  | c :: cs =>
    if c = '\n' then ['\n'] :: rawLines cs
    else
      match rawLines cs with
      | [] => [[c]]
      | line :: lines => (c :: line) :: lines

/-- The entries of lines, those of an open form joined.  Lines of a form that stays open to the
end are dropped. -/
def entriesOfLines (before : List Char) : List (List Char) → List Entry
  | [] => []
  | raw :: raws =>
    match joinLine before raw with
    | .inl text => .line (String.ofList text) :: entriesOfLines [] raws
    | .inr waiting => entriesOfLines waiting raws

/-- The entries of a stream. -/
def entriesOf (input : String) : List Entry := entriesOfLines [] (rawLines input.toList)

end TextAdventure
