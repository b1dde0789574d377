import TextAdventure.Source.Token

/-!
Nodes: the trees that a source text is read as.

Main statements:
* `Node` — forms, lists, names, literals and marked nodes, each with its place in the source;
* `Node.kindName` — how messages call a node;
* `Node.print` — source text for a node, on one line.
-/

namespace TextAdventure

/-- A node of a source text.  `<OP ARG...>` is a form, `(X...)` a list, `<>` the empty form,
`NAME` an atom, `.NAME` and `,NAME` references. -/
inductive Node where
  | form (operator : String) (args : List Node) (span : Span)
  | list (items : List Node) (span : Span)
  | empty (span : Span)
  | atom (name : String) (span : Span)
  | reference (sigil : Sigil) (name : String) (span : Span)
  | literal (value : Literal) (span : Span)
  | marked (marker : Marker) (body : Node) (span : Span)
  deriving Repr, Inhabited

namespace Node

def span : Node → Span
  | .form _ _ s | .list _ s | .empty s | .atom _ s | .reference _ _ s | .literal _ s
  | .marked _ _ s => s

/-- How messages call a node. -/
def kindName : Node → String
  | .form .. => "form"
  | .list .. => "list"
  | .empty _ => "empty form"
  | .atom .. => "atom"
  | .reference .dot _ _ => "local reference"
  | .reference .comma _ _ => "global reference"
  | .literal (.int _) _ => "number"
  | .literal (.float _) _ => "number"
  | .literal (.string _) _ => "string"
  | .literal (.char _) _ => "character"
  | .marked .quote _ _ => "quoted form"
  | .marked .quasiquote _ _ => "quoted form"
  | .marked .splice _ _ => "splice"
  | .marked .percent _ _ => "'%' form"
  | .marked (.tag _) _ _ => "tagged literal"

/-- The name of an atom. -/
def atom? : Node → Option String
  | .atom name _ => some name
  | _ => none

/-- The name of an atom or of a reference of either kind. -/
def name? : Node → Option String
  | .atom name _ => some name
  | .reference _ name _ => some name
  | _ => none

/-- The items of a list. -/
def items? : Node → Option (List Node)
  | .list items _ => some items
  | _ => none

/-- The operator and the arguments of a form. -/
def form? : Node → Option (String × List Node)
  | .form operator args _ => some (operator, args)
  | _ => none

/-! ### Printing -/

/-- Source text for a literal. -/
def printLiteral : Literal → List Char
  | .int n => (intText n.toInt).toList
  | .float x => x.literalText.toList
  | .string s => (Text.quoted s).toList
  | .char c => ['\\', c]

/-- Source text for a marker; a tag is set off from its node by a space. -/
def printMarker : Marker → List Char
  | .quote => ['\'']
  | .quasiquote => ['\x60']
  | .splice => ['!']
  | .percent => ['%']
  | .tag name => '#' :: name.toList ++ [' ']

/-- The character that begins a reference. -/
def printSigil : Sigil → Char
  | .dot => '.'
  | .comma => ','

mutual

/-- Source text for a node. -/
def printChars : Node → List Char
  | .form operator args _ => '<' :: operator.toList ++ printTail args ++ ['>']
  | .list items _ => '(' :: printItems items ++ [')']
  | .empty _ => ['<', '>']
  | .atom name _ => name.toList
  | .reference sigil name _ => printSigil sigil :: name.toList
  | .literal value _ => printLiteral value
  | .marked marker body _ => printMarker marker ++ printChars body

/-- Source text for nodes, a space before each. -/
def printTail : List Node → List Char
  | [] => []
  | node :: nodes => ' ' :: printChars node ++ printTail nodes

/-- Source text for nodes, a space between two. -/
def printItems : List Node → List Char
  | [] => []
  | node :: nodes => printChars node ++ printTail nodes

end

/-- A node as source text on one line. -/
def print (node : Node) : String := String.ofList node.printChars

/-- Nodes as source text, one a line. -/
def printAll (nodes : List Node) : String := "\n".intercalate (nodes.map print)

end Node

end TextAdventure
