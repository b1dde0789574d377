/-!
Places in a source text.

A position counts what lies before it: bytes of the UTF-8 encoding, lines and, in the last line,
characters.  Lines and columns start at 1.  A span is a stretch of text together with the line
and column of its first character.

Main statements:
* `Position.advance_append` — advancing over two texts in turn is advancing over both;
* `lineText` — the line of a text with a given number.

Design notes.  Lines and columns are counted without a bound.  Those of the tokens of a text are at
most one more than it has characters, so those of a text of fewer than `2 ^ 32 - 1` characters, and
of the nodes and mistakes read from it, are numbers of 32 bits.
-/

namespace TextAdventure

/-- A place in a source text. -/
structure Position where
  offset : Nat
  line : Nat
  column : Nat
  deriving DecidableEq, Repr, Inhabited

namespace Position

/-- The place before the first character. -/
def start : Position := ⟨0, 1, 1⟩

/-- The place behind one more character. -/
def next (p : Position) (c : Char) : Position :=
  if c = '\n' then ⟨p.offset + c.utf8Size, p.line + 1, 1⟩
  else ⟨p.offset + c.utf8Size, p.line, p.column + 1⟩

/-- The place behind a whole text. -/
def advance (p : Position) (cs : List Char) : Position := cs.foldl next p

theorem advance_append (p : Position) (cs ds : List Char) :
    p.advance (cs ++ ds) = (p.advance cs).advance ds := by
  simp [advance]

end Position

/-- A stretch of a source text: its two ends as byte offsets, and where it begins. -/
structure Span where
  start : Nat
  stop : Nat
  line : Nat
  column : Nat
  deriving DecidableEq, Repr, Inhabited

namespace Span

/-- The stretch between two places. -/
def between (p q : Position) : Span := ⟨p.offset, q.offset, p.line, p.column⟩

/-- The stretch from the beginning of one span to the end of another. -/
def through (first last : Span) : Span := { first with stop := last.stop }

end Span

/-- The lines of a text: its pieces between newlines. -/
def sourceLines : List Char → List (List Char)
  | [] => [[]]
  | c :: cs =>
    if c = '\n' then [] :: sourceLines cs
    else
      match sourceLines cs with
      | [] => [[c]]
      | line :: lines => (c :: line) :: lines

/-- The line with a given number, counting from 1, without its newline. -/
def lineText (source : List Char) (line : Nat) : String :=
  String.ofList ((sourceLines source)[line - 1]?.getD [])

end TextAdventure
