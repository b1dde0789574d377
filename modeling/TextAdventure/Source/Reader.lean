import TextAdventure.Source.Node

/-!
Reading nodes from tokens.

The reader takes one token at a time.  It keeps the constructs that have been opened and not yet
closed, innermost first, and the nodes completed at top level.  A token either opens a
construct, completes one, or completes a node, which then goes to the innermost open construct;
markers close as soon as the node after them is complete.

Main statements:
* `Reader.accept` — what one token does;
* `Reader.finish` — which construct the end of the text leaves open;
* `parseNodes`, `parseFirst`, `parseAllowingErrors` — all nodes of a text, its first node, and
  all nodes that can be saved from a text with mistakes.

Design notes.  Reading is a fold over the tokens, so reading one text after another is reading
them in turn, and the end of the text is the only place where an open construct is a mistake.
After a mistake `parseAllowingErrors` goes on at the next `<` in column 1.
-/

namespace TextAdventure

/-- Why a text cannot be read. -/
inductive SyntaxFault where
  | lexical (fault : LexicalFault)
  | unexpectedEnd
  | unexpectedForm
  | unexpectedList
  | emptyForm
  | operatorNotAtom (found : Lexeme)
  | unterminatedForm
  | unterminatedList
  | missingOperand (marker : Marker)
  deriving DecidableEq, Repr

/-- How messages call a marker that lacks its node. -/
def Marker.role : Marker → String
  | .quote => "quote"
  | .quasiquote => "quasiquote"
  | .splice => "'!'"
  | .percent => "'%'"
  | .tag _ => "tag"

def SyntaxFault.message : SyntaxFault → String
  | .lexical fault => fault.message
  | .unexpectedEnd => "unexpected end of input"
  | .unexpectedForm => "unexpected '>'"
  | .unexpectedList => "unexpected ')'"
  | .emptyForm => "empty form at top level"
  | .operatorNotAtom found => "form operator must be an atom, found " ++ found.name
  | .unterminatedForm => "unterminated form"
  | .unterminatedList => "unterminated list"
  | .missingOperand marker => "expected form after " ++ marker.role

/-- A mistake in a text, and where it stands. -/
structure SyntaxError where
  fault : SyntaxFault
  span : Span
  deriving DecidableEq, Repr

/-- A construct that has been opened and not closed.  What it holds so far comes last first. -/
inductive Opened where
  | form (start : Span) (operator : String) (args : List Node)
  | list (start : Span) (items : List Node)
  | marker (start : Span) (marker : Marker)
  deriving Repr

/-- The state of reading: the `<` just read whose operator has not come, the open constructs,
innermost first, and the complete nodes, last first. -/
structure Reader where
  angle : Option Span
  opened : List Opened
  nodes : List Node
  deriving Repr

namespace Reader

/-- Nothing read yet. -/
def initial : Reader := ⟨none, [], []⟩

/-- Hands a complete node to the innermost open construct. -/
def attach (node : Node) (nodes : List Node) : List Opened → Reader
  | [] => ⟨none, [], node :: nodes⟩
  | .form start operator args :: rest =>
    ⟨none, .form start operator (node :: args) :: rest, nodes⟩
  | .list start items :: rest => ⟨none, .list start (node :: items) :: rest, nodes⟩
  | .marker start marker :: rest =>
    attach (.marked marker node (start.through node.span)) nodes rest

/-- Whether `<>` may stand as a node of its own. -/
inductive EmptyForms where
  | allowed
  | refused
  deriving DecidableEq, Repr

/-- The token after a `<`: an operator, or the end of an empty form. -/
def acceptOperator (policy : EmptyForms) (r : Reader) (start : Span) (t : Token) :
    Except SyntaxError Reader :=
  match t.lexeme with
  | .closeForm =>
    if policy = .refused ∧ r.opened = [] then .error ⟨.emptyForm, start⟩
    else .ok (attach (.empty (start.through t.span)) r.nodes r.opened)
  | .atom operator => .ok ⟨none, .form start operator [] :: r.opened, r.nodes⟩
  | .malformed fault => .error ⟨.lexical fault, t.span⟩
  | .endOfInput => .error ⟨.unterminatedForm, start⟩
  | found => .error ⟨.operatorNotAtom found, t.span⟩

/-- The mistake of a text that ends while the given constructs are open. -/
def unfinished (stop : Span) : List Opened → SyntaxError
  | [] => ⟨.unexpectedEnd, stop⟩
  | .form start _ _ :: _ => ⟨.unterminatedForm, start⟩
  | .list start _ :: _ => ⟨.unterminatedList, start⟩
  | .marker start marker :: _ => ⟨.missingOperand marker, start⟩

/-- A token where a node may begin or the innermost construct end. -/
def acceptNode (r : Reader) (t : Token) : Except SyntaxError Reader :=
  match t.lexeme with
  | .openForm => .ok { r with angle := some t.span }
  | .openList => .ok { r with opened := .list t.span [] :: r.opened }
  | .marker marker => .ok { r with opened := .marker t.span marker :: r.opened }
  | .closeForm =>
    match r.opened with
    | .form start operator args :: rest =>
      .ok (attach (.form operator args.reverse (start.through t.span)) r.nodes rest)
    | _ => .error ⟨.unexpectedForm, t.span⟩
  | .closeList =>
    match r.opened with
    | .list start items :: rest =>
      .ok (attach (.list items.reverse (start.through t.span)) r.nodes rest)
    | _ => .error ⟨.unexpectedList, t.span⟩
  | .literal value => .ok (attach (.literal value t.span) r.nodes r.opened)
  | .atom name => .ok (attach (.atom name t.span) r.nodes r.opened)
  | .reference sigil name => .ok (attach (.reference sigil name t.span) r.nodes r.opened)
  | .comment _ => .ok r
  | .malformed fault => .error ⟨.lexical fault, t.span⟩
  | .endOfInput => .error (unfinished t.span r.opened)

/-- What one token does to the state of reading. -/
def accept (policy : EmptyForms) (r : Reader) (t : Token) : Except SyntaxError Reader :=
  if t.lexeme.isComment then .ok r
  else
    match r.angle with
    | some start => acceptOperator policy r start t
    | none => acceptNode r t

/-- Whether nothing is open. -/
def isIdle (r : Reader) : Bool := r.angle.isNone && r.opened.isEmpty

end Reader

/-! ### Reading a whole text -/

/-- Reads tokens to their end: every node of them, or the first mistake. -/
def readNodes (r : Reader) : List Token → Except SyntaxError (List Node)
  | [] => .ok r.nodes.reverse
  | t :: ts =>
    if t.lexeme = .endOfInput ∧ r.isIdle then .ok r.nodes.reverse
    else
      match r.accept .refused t with
      | .ok next => readNodes next ts
      | .error e => .error e

/-- Reads tokens up to the end of the first node. -/
def readFirst (r : Reader) : List Token → Except SyntaxError Node
  | [] => .error ⟨.unexpectedEnd, default⟩
  | t :: ts =>
    match r.accept .allowed t with
    | .error e => .error e
    | .ok next =>
      match next.nodes with
      | node :: _ => .ok node
      | [] => readFirst next ts

/-- Where reading goes on after a mistake. -/
def Token.startsLine (t : Token) : Bool := t.lexeme == .openForm && t.span.column == 1

/-- Reads tokens to their end, going on behind each mistake.  In `skipping` mode tokens are
passed over up to the next `<` in column 1.  Yields the nodes and the mistakes, in order. -/
def readRecovering (r : Reader) (skipping : Bool) (errors : List SyntaxError) :
    List Token → List Node × List SyntaxError
  | [] => (r.nodes.reverse, errors.reverse)
  | t :: ts =>
    if t.lexeme = .endOfInput ∧ (skipping ∨ r.isIdle) then (r.nodes.reverse, errors.reverse)
    else if skipping ∧ !t.startsLine then readRecovering r true errors ts
    else
      match r.accept .refused t with
      | .ok next => readRecovering next false errors ts
      | .error e =>
        if t.startsLine then
          readRecovering ⟨some t.span, [], r.nodes⟩ false (e :: errors) ts
        else readRecovering ⟨none, [], r.nodes⟩ true (e :: errors) ts

/-- Every node of a text, or its first mistake. -/
def parseNodes (source : String) : Except SyntaxError (List Node) :=
  readNodes .initial (tokenize source)

/-- The first node of a text. -/
def parseFirst (source : String) : Except SyntaxError Node :=
  readFirst .initial (tokenize source)

/-- The nodes of a text and all its mistakes. -/
def parseAllowingErrors (source : String) : List Node × List SyntaxError :=
  readRecovering .initial false [] (tokenize source)

end TextAdventure
