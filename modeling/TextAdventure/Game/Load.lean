import TextAdventure.Game.Declaration
import TextAdventure.Game.Settings

/-!
Loading a game.

Declarations may refer to what is declared after them, so loading goes in phases: all objects
come into being, and all flags named in code become known; then objects get their properties
and places; then globals and property defaults their values; then routines are defined; and
last come the words.  The first failure ends the loading.

Main statements:
* `literalValue` — what a node stands for in a declaration;
* `preEvaluate` — a routine's body with each `%` form replaced by what it is worth now;
* `load` — a game from its top-level nodes;
* `readSources`, `loadSources` — a game from its source texts.

Design notes.  Objects get their places in reverse order, since each goes in front of its
siblings; so the children of a container end up in the order of declaration.
-/

namespace TextAdventure

/-! ### Objects -/

/-- What the clauses of an object say about its flags, words and routine. -/
def specOf (name : String) (clauses : List Clause) : ObjectSpec :=
  clauses.foldl (fun spec clause =>
    if clause.name = "FLAGS" then { spec with flags := spec.flags ++ atomNames clause.args }
    else if clause.name = "SYNONYM" then
      { spec with synonyms := spec.synonyms ++ atomNames clause.args }
    else if clause.name = "ADJECTIVE" then
      { spec with adjectives := spec.adjectives ++ atomNames clause.args }
    else if clause.name = "ACTION" then
      match clause.args.head?.bind Node.name? with
      | some routine => { spec with action := some routine }
      | none => spec
    else spec) (ObjectSpec.named name)

/-- Brings a declared object into being. -/
def registerObject (d : Declaration) : Run Unit := do
  let name ← Run.ofExcept d.declaredName
  Run.changeWorld fun w => (w.register (specOf name d.clauses)).map (·.1)

/-- What a node is worth on its own. -/
def constantValue (lib : Library) (fuel : Nat) (node : Node) : Run Value :=
  atTopLevel (evalValue lib fuel node)

/-- What a name stands for in a declaration: an object, or else the atom itself. -/
def nameValue (name : String) : Run Value :=
  Run.readWorld fun w =>
    match w.lookup? name with
    | some o => .object o
    | none => .ofName name

mutual

/-- What a node stands for in a declaration.  Names of objects stand for them, other names for
themselves; forms are evaluated. -/
def literalValue (lib : Library) (fuel : Nat) : Node → Run Value
  | .atom name _ => if sameLetters name "T" then pure (.bool true) else nameValue name
  | .reference _ name _ => nameValue name
  | .empty _ => pure (.bool false)
  | .list [] _ => pure (.bool false)
  | .list (item :: items) _ => do
    let value ← literalValue lib fuel item
    let values ← literalValues lib fuel items
    return .list (value :: values)
  | .form operator args span => constantValue lib fuel (.form operator args span)
  | .literal value _ => pure (.ofLiteral value)
  | .marked marker body span => constantValue lib fuel (.marked marker body span)

/-- What nodes stand for in a declaration. -/
def literalValues (lib : Library) (fuel : Nat) : List Node → Run (List Value)
  | [] => pure []
  | node :: nodes => do
    let value ← literalValue lib fuel node
    let values ← literalValues lib fuel nodes
    return value :: values

end

/-- Whether a node is a given word. -/
def isWord (word : String) (node : Node) : Bool :=
  match node with
  | .atom name _ => sameLetters name word
  | _ => false

/-- What a clause says a property is worth: nothing is true, one node its value, `TO X` the
value of `X`, `PER R` the routine `R`, and more nodes the list of their values. -/
def propertyValue (lib : Library) (fuel : Nat) : List Node → Run Value
  | [] => pure (.bool true)
  | [node] => literalValue lib fuel node
  | marker :: target :: rest =>
    if isWord "TO" marker then literalValue lib fuel target
    else if isWord "PER" marker then
      match target.name? with
      | some routine => pure (.routine (canonical routine))
      | none => Run.fail (.unsupportedSyntax "PER without a routine")
    else do return .list (← literalValues lib fuel (marker :: target :: rest))

/-- The container that a clause names. -/
def containerOf (w : World) (clause : Clause) : Except Fault ObjectId :=
  match clause.args.head?.bind Node.name? with
  | none => .error (.unsupportedSyntax (clause.name ++ " without a container"))
  | some name =>
    match w.lookup? name with
    | some o => .ok o
    | none => .error (.noSuchObject (canonical name))

/-- Whether a clause was dealt with when the object came into being. -/
def Clause.isIdentity (c : Clause) : Bool :=
  ["FLAGS", "SYNONYM", "ADJECTIVE", "ACTION"].contains c.name

/-- Whether a clause says where an object is. -/
def Clause.isPlace (c : Clause) : Bool := c.name == "IN" || c.name == "LOC"

/-- Gives an object what one of its clauses says. -/
def fillClause (lib : Library) (fuel : Nat) (o : ObjectId) (clause : Clause) : Run Unit :=
  if clause.isIdentity then pure ()
  else if clause.isPlace then
    Run.changeWorld fun w =>
      match containerOf w clause with
      | .ok container => w.move o container
      | .error fault => .error fault
  else do
    let value ← propertyValue lib fuel clause.args
    Run.changeWorld (·.putProperty o clause.name value)

/-- Does something with each of some things, in order. -/
def Run.forEach {α : Type} (act : α → Run Unit) : List α → Run Unit
  | [] => pure ()
  | a :: as => do
    act a
    Run.forEach act as

/-- Gives a declared object its properties and its place. -/
def fillObject (lib : Library) (fuel : Nat) (d : Declaration) : Run Unit := do
  let name ← Run.ofExcept d.declaredName
  match ← Run.readWorld (·.lookup? name) with
  | some o => Run.forEach (fillClause lib fuel o) d.clauses
  | none => Run.fail (.noSuchObject name)

/-! ### Globals -/

/-- The name that a declaration declares, and the value behind it, false when there is none. -/
def namedValue (lib : Library) (fuel : Nat) (d : Declaration) : Run (String × Value) := do
  let name ← Run.ofExcept d.declaredName
  match d.args[1]? with
  | some node => return (name, ← literalValue lib fuel node)
  | none => return (name, .bool false)

/-- Gives a declared global or property default its value. -/
def declareValue (lib : Library) (fuel : Nat) (d : Declaration) : Run Unit :=
  match d.kind with
  | .global | .constant | .setGlobal => do
    let (name, value) ← namedValue lib fuel d
    Run.modifyWorld (·.setGlobal name value)
  | .propertyDefault => do
    let (name, value) ← namedValue lib fuel d
    Run.modifyWorld (·.setPropertyDefault name value)
  | _ => pure ()

/-! ### Routines -/

mutual

/-- A node that evaluates to a given value.  Tables have none. -/
def nodeOfValue (w : World) (span : Span) : Value → Except Fault Node
  | .bool true => .ok (.atom "T" span)
  | .bool false => .ok (.empty span)
  | .int n => .ok (.literal (.int n) span)
  | .float x => .ok (.literal (.float x) span)
  | .string s => .ok (.literal (.string s) span)
  | .atom name => .ok (.marked .quote (.atom name span) span)
  | .char c => .ok (.literal (.char c) span)
  | .object o => .ok (.reference .comma (w.objectName o) span)
  | .routine name => .ok (.reference .comma name span)
  | .table t => .error (.unsupportedSyntax ("%-form producing " ++ t.label))
  | .list items => do
    let nodes ← nodesOfValues w span items
    return .list nodes span

/-- Nodes that evaluate to given values. -/
def nodesOfValues (w : World) (span : Span) : List Value → Except Fault (List Node)
  | [] => .ok []
  | value :: values => do
    let node ← nodeOfValue w span value
    let nodes ← nodesOfValues w span values
    return node :: nodes

end

mutual

/-- A node with each `%` form in it replaced by a literal of what it is worth now. -/
def preEvaluate (lib : Library) (fuel : Nat) : Node → Run Node
  | .marked .percent body span => do
    let value ← constantValue lib fuel body
    Run.ofExcept (← Run.readWorld fun w => nodeOfValue w span value)
  | .form operator args span => do
    return .form operator (← preEvaluateAll lib fuel args) span
  | .list items span => do return .list (← preEvaluateAll lib fuel items) span
  | .marked marker body span => pure (.marked marker body span)
  | .empty span => pure (.empty span)
  | .atom name span => pure (.atom name span)
  | .reference sigil name span => pure (.reference sigil name span)
  | .literal value span => pure (.literal value span)

/-- Nodes with each `%` form in them replaced. -/
def preEvaluateAll (lib : Library) (fuel : Nat) : List Node → Run (List Node)
  | [] => pure []
  | node :: nodes => do
    let first ← preEvaluate lib fuel node
    let rest ← preEvaluateAll lib fuel nodes
    return first :: rest

end

/-- The routine that a declaration declares. -/
def buildRoutine (lib : Library) (fuel : Nat) (d : Declaration) : Run Routine := do
  let name ← Run.ofExcept d.declaredName
  match d.args[1]?.bind Node.items? with
  | none => Run.fail (.unsupportedSyntax ("ROUTINE " ++ name ++ " without an argument list"))
  | some arguments =>
    let body ← preEvaluateAll lib fuel (d.args.drop 2)
    match Routine.ofDeclaration name arguments body with
    | .ok routine => return routine
    | .error fault => fun m => (.failed ((Failure.ofFault fault).inRoutine name), m)

/-- Defines routines in order; each may be called by the `%` forms of those after it. -/
def defineRoutines (fuel : Nat) : Library → List Declaration → Run Library
  | lib, [] => pure lib
  | lib, d :: ds => do
    let routine ← buildRoutine lib fuel d
    defineRoutines fuel { lib with routines := lib.routines.define routine } ds

/-! ### Words -/

/-- Adds the words that a declaration declares. -/
def declareWords (v : Vocabulary) (d : Declaration) : Except Fault Vocabulary :=
  let words := atomNames d.args
  match d.kind with
  | .rule => (CommandRule.ofWords words).map v.addRule
  | .synonym =>
    match words with
    | [] => .ok v
    | primary :: synonyms => .ok (v.addSynonyms primary synonyms)
  | .noise => .ok (v.addNoise words)
  | .directions => .ok (words.foldl (·.addDirection ·) v)
  | _ => .ok v

/-- Adds the words of declarations in order. -/
def declareVocabulary : Vocabulary → List Declaration → Except Fault Vocabulary
  | v, [] => .ok v
  | v, d :: ds =>
    match declareWords v d with
    | .ok next => declareVocabulary next ds
    | .error fault => .error fault

/-! ### Games -/

/-- Loads declarations phase by phase: what programs can use, and the words. -/
def loadDeclarations (settings : Settings) (fuel : Nat) (ds : List Declaration) :
    Run (Library × Vocabulary) := do
  let lib := settings.library
  let objects := ds.filter (·.kind.isObject)
  Run.forEach registerObject objects
  Run.modifyWorld fun w => (ds.flatMap fun d => codeFlagsAll d.args).foldl World.declareFlag w
  Run.forEach (fillObject lib fuel) objects.reverse
  Run.forEach (declareValue lib fuel) ds
  let lib ← defineRoutines fuel lib (ds.filter (·.kind == .routine))
  let vocabulary ← Run.ofExcept (declareVocabulary .empty ds)
  return (lib, vocabulary)

/-- Loads a game from its top-level nodes. -/
def load (settings : Settings) (fuel : Nat) (nodes : List Node) : Outcome Game :=
  let act : Run (Library × Vocabulary) := do
    let ds ← Run.ofExcept (classify nodes)
    loadDeclarations settings fuel ds
  match act (.initial settings.random) with
  | (.done (library, vocabulary), machine) =>
    .done ⟨settings, library, machine, settings.reader vocabulary⟩
  | (.signal s, _) => .signal s
  | (.failed f, _) => .failed f
  | (.exhausted what, _) => .exhausted what

/-! ### Sources -/

/-- The nodes of a named source text; a mistake in it notes the name. -/
def readUnit (name source : String) : Except Failure (List Node) :=
  match parseRecovering source with
  | (nodes, []) => .ok nodes
  | (_, f :: _) => .error (f.inSource name)

/-- The nodes of named source texts, one after another. -/
def readSources : List (String × String) → Except Failure (List Node)
  | [] => .ok []
  | (name, source) :: rest => do
    let nodes ← readUnit name source
    let more ← readSources rest
    return nodes ++ more

/-- Loads a game from its named source texts. -/
def loadSources (settings : Settings) (fuel : Nat) (sources : List (String × String)) :
    Outcome Game :=
  match readSources sources with
  | .ok nodes => load settings fuel nodes
  | .error f => .failed f

end TextAdventure
