import TextAdventure.Failure
import TextAdventure.Text.Letter

/-!
Declarations: what stands at the top level of a game's source.

Main statements:
* `classify` — the declarations among top-level nodes; strings between them are remarks;
* `Declaration.clauses` — the clauses of an object;
* `codeFlags` — the flags that code names as it stands.
-/

namespace TextAdventure

/-- What a declaration declares. -/
inductive DeclarationKind where
  | routine
  | object
  | room
  | global
  | constant
  | setGlobal
  | propertyDefault
  | rule
  | synonym
  | noise
  | directions
  | version
  deriving DecidableEq, Repr

namespace DeclarationKind

/-- The word that begins a declaration. -/
def name : DeclarationKind → String
  | .routine => "ROUTINE"
  | .object => "OBJECT"
  | .room => "ROOM"
  | .global => "GLOBAL"
  | .constant => "CONSTANT"
  | .setGlobal => "SETG"
  | .propertyDefault => "PROPDEF"
  | .rule => "SYNTAX"
  | .synonym => "SYNONYM"
  | .noise => "BUZZ"
  | .directions => "DIRECTIONS"
  | .version => "VERSION"

def all : List DeclarationKind :=
  [.routine, .object, .room, .global, .constant, .setGlobal, .propertyDefault, .rule, .synonym,
    .noise, .directions, .version]

/-- The kind of declaration that a word begins. -/
def ofName? (name : String) : Option DeclarationKind := all.find? (·.name == name)

/-- Whether an object is declared. -/
def isObject : DeclarationKind → Bool
  | .object => true
  | .room => true
  | _ => false

end DeclarationKind

/-- A declaration and what stands in it. -/
structure Declaration where
  kind : DeclarationKind
  args : List Node
  deriving Repr

/-- The declarations among top-level nodes. -/
def classify : List Node → Except Fault (List Declaration)
  | [] => .ok []
  | .form operator args _ :: nodes =>
    match DeclarationKind.ofName? (canonical operator) with
    | some kind => do
      let rest ← classify nodes
      return ⟨kind, args⟩ :: rest
    | none => .error (.unsupportedSyntax ("top-level " ++ canonical operator ++ " declaration"))
  | .literal (.string _) _ :: nodes => classify nodes
  | node :: _ => .error (.unsupportedSyntax ("top-level " ++ node.kindName))

/-- A clause of an object: its name, in canonical spelling, and what follows it. -/
structure Clause where
  name : String
  args : List Node
  deriving Repr

/-- The names among nodes that are atoms. -/
def atomNames (nodes : List Node) : List String := nodes.filterMap Node.atom?

namespace Declaration

/-- The name that a declaration declares, in canonical spelling. -/
def declaredName (d : Declaration) : Except Fault String :=
  match d.args.head?.bind Node.name? with
  | some name => .ok (canonical name)
  | none => .error (.unsupportedSyntax (d.kind.name ++ " without a name"))

/-- The clause that a node is: a list that begins with an atom. -/
def clause? : Node → Option Clause
  | .list (.atom name _ :: args) _ => some ⟨canonical name, args⟩
  | _ => none

/-- The clauses of an object. -/
def clauses (d : Declaration) : List Clause := (d.args.drop 1).filterMap clause?

end Declaration

/-! ### Flags named in code -/

/-- Whether an operation takes a flag as its second argument. -/
def takesFlag (operator : String) : Bool :=
  ["FSET", "FCLEAR", "FSET?"].contains (canonical operator)

/-- The flag that an argument names as it stands. -/
def flagName? : Node → Option String
  | .atom name _ => some name
  | .reference .comma name _ => some name
  | .marked .quote (.atom name _) _ => some name
  | _ => none

mutual

/-- The flags that a node names, in the order in which they stand. -/
def codeFlags : Node → List String
  | .form operator args _ =>
    let flag := if takesFlag operator then args[1]?.bind flagName? else none
    flag.toList ++ codeFlagsAll args
  | .list items _ => codeFlagsAll items
  | .marked _ body _ => codeFlags body
  | .empty _ => []
  | .atom _ _ => []
  | .reference _ _ _ => []
  | .literal _ _ => []

/-- The flags that nodes name. -/
def codeFlagsAll : List Node → List String
  | [] => []
  | node :: nodes => codeFlags node ++ codeFlagsAll nodes

end

end TextAdventure
