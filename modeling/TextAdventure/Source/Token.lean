import TextAdventure.Number.Decimal
import TextAdventure.Source.Position
import TextAdventure.Text.Blank
import TextAdventure.Text.Quoted

/-!
Tokens of a source text.

A text is cut into tokens, each with the stretch of text it stands for; between two tokens there
are only blanks.  Cutting never fails: a piece of text that is no token becomes a `malformed`
token with the reason, and every text ends with one `endOfInput`.

Main statements:
* `Lexeme.scan` — the token that begins with a given character, and how much more text it takes;
* `Lexeme.ofWord` — a bare word is a number exactly when it has the shape of one;
* `tokenize` — all tokens of a text.
-/

namespace TextAdventure

/-- A constant written in the source. -/
inductive Literal where
  | int (n : Int64)
  | float (x : Binary64)
  | string (s : String)
  | char (c : Char)
  deriving DecidableEq, Repr, Inhabited

/-- The sign before the name of a variable: `.NAME` or `,NAME`. -/
inductive Sigil where
  | dot
  | comma
  deriving DecidableEq, Repr, Inhabited

/-- A mark that applies to the node after it. -/
inductive Marker where
  | quote
  | quasiquote
  | splice
  | percent
  | tag (name : String)
  deriving DecidableEq, Repr, Inhabited

/-- Why a piece of text is no token. -/
inductive LexicalFault where
  | unterminatedString
  | missingCharacter
  | missingName (mark : Char)
  | strayBracket (c : Char)
  | integerRange (e : RangeError)
  deriving DecidableEq, Repr

def LexicalFault.message : LexicalFault → String
  | .unterminatedString => "unterminated string literal"
  | .missingCharacter => "expected character after '\\'"
  | .missingName mark => "expected name after '" ++ mark.toString ++ "'"
  | .strayBracket c => "unrecognized token '" ++ c.toString ++ "'"
  | .integerRange .tooLarge => "invalid integer: number too large to fit in target type"
  | .integerRange .tooSmall => "invalid integer: number too small to fit in target type"

/-- What a token is. -/
inductive Lexeme where
  | openForm
  | closeForm
  | openList
  | closeList
  | literal (value : Literal)
  | atom (name : String)
  | reference (sigil : Sigil) (name : String)
  | marker (m : Marker)
  | comment (text : String)
  | malformed (fault : LexicalFault)
  | endOfInput
  deriving DecidableEq, Repr

/-- A token: what it is, where it stands and how it is spelled. -/
structure Token where
  lexeme : Lexeme
  span : Span
  text : List Char
  deriving DecidableEq, Repr

namespace Lexeme

/-- How messages call a token. -/
def name : Lexeme → String
  | .openForm => "'<'"
  | .closeForm => "'>'"
  | .openList => "'('"
  | .closeList => "')'"
  | .literal (.int _) => "integer"
  | .literal (.float _) => "float"
  | .literal (.string _) => "string"
  | .literal (.char _) => "character"
  | .atom _ => "atom"
  | .reference .dot _ => "local reference"
  | .reference .comma _ => "global reference"
  | .marker .quote => "quote"
  | .marker .quasiquote => "quasiquote"
  | .marker .splice => "splice"
  | .marker .percent => "'%'"
  | .marker (.tag _) => "tag"
  | .comment _ => "comment"
  | .malformed _ => "error"
  | .endOfInput => "end of input"

/-- Comments stand between nodes without being part of any. -/
def isComment : Lexeme → Bool
  | .comment _ => true
  | _ => false

/-- Markers need a node after them. -/
def isMarker : Lexeme → Bool
  | .marker _ => true
  | _ => false

end Lexeme

/-! ### Words -/

/-- A character that atoms, numbers and names may hold. -/
def isWordChar (c : Char) : Bool :=
  !isBlank c && !(['<', '>', '(', ')', '[', ']', '\x7b', '\x7d', '"', ';', ','].contains c)

/-- A bare word: an optional sign and digits are an integer, an optional sign and two runs of
digits around one point are a float, and everything else is an atom. -/
def Lexeme.ofWord (word : List Char) : Lexeme :=
  let (negative, digits) := splitSign word
  let whole := digits.takeWhile isDigit
  if whole.isEmpty then .atom (String.ofList word)
  else
    match digits.dropWhile isDigit with
    | [] =>
      match readInt word with
      | .ok n => .literal (.int n)
      | .error e => .malformed (.integerRange e)
    | '.' :: fraction =>
      if !fraction.isEmpty && fraction.all isDigit then
        .literal (.float (Binary64.ofDecimal negative whole fraction))
      else .atom (String.ofList word)
    | _ => .atom (String.ofList word)

/-- A mark that must be followed at once by a name: the token and the length of the name. -/
def Lexeme.named (mark : Char) (make : String → Lexeme) (cs : List Char) : Lexeme × Nat :=
  let name := cs.takeWhile isWordChar
  if name.isEmpty then (.malformed (.missingName mark), 0)
  else (make (String.ofList name), name.length)

/-- The token that begins with the character `c`, and how many of the characters `cs` after it
belong to the token. -/
def Lexeme.scan (c : Char) (cs : List Char) : Lexeme × Nat :=
  match c with
  | '<' => (.openForm, 0)
  | '>' => (.closeForm, 0)
  | '(' => (.openList, 0)
  | ')' => (.closeList, 0)
  | '\'' => (.marker .quote, 0)
  | '\x60' => (.marker .quasiquote, 0)
  | '!' => (.marker .splice, 0)
  | '%' => (.marker .percent, 0)
  | ';' =>
    let text := cs.takeWhile (· ≠ '\n')
    (.comment (String.ofList (';' :: text)), text.length)
  | '"' =>
    match Text.readQuoted cs with
    | some (text, rest) => (.literal (.string (String.ofList text)), cs.length - rest.length)
    | none => (.malformed .unterminatedString, cs.length)
  | '\\' =>
    match cs with
    | d :: _ => (.literal (.char d), 1)
    | [] => (.malformed .missingCharacter, 0)
  | '#' => Lexeme.named '#' (fun name => .marker (.tag name)) cs
  | '.' => Lexeme.named '.' (.reference .dot) cs
  | ',' => Lexeme.named ',' (.reference .comma) cs
  | '[' | ']' | '\x7b' | '\x7d' => (.malformed (.strayBracket c), 0)
  | _ =>
    let rest := cs.takeWhile isWordChar
    (Lexeme.ofWord (c :: rest), rest.length)

/-! ### The tokens of a text -/

/-- The tokens of a text that begins at a given place. -/
def tokensFrom (p : Position) (cs : List Char) : List Token :=
  match cs with
  | [] => [⟨.endOfInput, Span.between p p, []⟩]
  | c :: cs =>
    if isBlank c then tokensFrom (p.next c) cs
    else
      let scanned := Lexeme.scan c cs
      let text := c :: cs.take scanned.2
      let q := p.advance text
      ⟨scanned.1, Span.between p q, text⟩ :: tokensFrom q (cs.drop scanned.2)
termination_by cs.length
decreasing_by
  · simp
  · simp only [List.length_drop, List.length_cons]
    omega

/-- The tokens of a source text, comments included, ending with `endOfInput`. -/
def tokenize (source : String) : List Token := tokensFrom Position.start source.toList

end TextAdventure
