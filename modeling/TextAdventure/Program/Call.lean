import TextAdventure.Program.Machine

/-!
Evaluating several nodes, naming things, and calling routines.

Everything here is stated for an arbitrary way `ev` of evaluating a single node, which
`TextAdventure.Program.Eval` then supplies.

Main statements:
* `evalAll` — values of nodes from left to right, with spliced lists flattened;
* `evalBody` — the value of the last of some nodes;
* `resolve` — what a name refers to;
* `callRoutine` — parameters filled from arguments, defaults and false, then the body.
-/

namespace TextAdventure

/-! ### Several nodes -/

/-- Adds a value to those that come after it; the list that a splice yields is flattened. -/
def spliceValue (node : Node) (value : Value) (rest : List Value) : List Value :=
  match node, value with
  | .marked .splice _ _, .list items => items ++ rest
  | _, _ => value :: rest

/-- The values of nodes, from left to right. -/
def evalAll (ev : Node → Run Value) : List Node → Run (List Value)
  | [] => pure []
  | node :: nodes => do
    let value ← ev node
    let values ← evalAll ev nodes
    return spliceValue node value values

/-- Evaluates nodes in order for the value of the last, or `last` when there is none. -/
def evalLast (ev : Node → Run Value) : Value → List Node → Run Value
  | last, [] => pure last
  | _, node :: nodes => do
    let value ← ev node
    evalLast ev value nodes

/-- Evaluates nodes in order; the value is that of the last, or false when there is none. -/
def evalBody (ev : Node → Run Value) (nodes : List Node) : Run Value :=
  evalLast ev (.bool false) nodes

/-- Evaluates nodes in order for what they do. -/
def evalEach (ev : Node → Run Value) : List Node → Run Unit
  | [] => pure ()
  | node :: nodes => do
    let _ ← ev node
    evalEach ev nodes

/-! ### What an operation expects -/

def expectInt (operation : String) : Value → Run Int64
  | .int n => pure n
  | other => Run.fail (.typeMismatch operation "int" other.typeName)

def expectObject (operation : String) : Value → Run ObjectId
  | .object o => pure o
  | other => Run.fail (.typeMismatch operation "object" other.typeName)

def expectTable (operation : String) : Value → Run TableId
  | .table t => pure t
  | other => Run.fail (.typeMismatch operation "table" other.typeName)

/-- An atom or a string as a name, in canonical spelling. -/
def expectName (operation : String) : Value → Run String
  | .atom name => pure (canonical name)
  | .string name => pure (canonical name)
  | other => Run.fail (.typeMismatch operation "atom" other.typeName)

/-- The object that an argument evaluates to. -/
def objectArg (ev : Node → Run Value) (operation : String) (node : Node) : Run ObjectId := do
  expectObject operation (← ev node)

/-- The name that an argument evaluates to. -/
def nameArg (ev : Node → Run Value) (operation : String) (node : Node) : Run String := do
  expectName operation (← ev node)

/-- A name written in the source; any other node is evaluated to one. -/
def literalName (ev : Node → Run Value) (operation : String) (node : Node) : Run String :=
  match node.name? with
  | some name => pure (canonical name)
  | none => nameArg ev operation node

/-! ### Names -/

/-- The name of a property behind `P?`. -/
def propertyReference? (name : String) : Option String :=
  match name.toList with
  | 'P' :: '?' :: rest => some (String.ofList rest)
  | _ => none

/-- What a name refers to: a variable, a global, an object, a flag, a property by its reference
`P?NAME`, or a routine, in this order. -/
def resolve (lib : Library) (world : World) (frame : Frame) (name : String) :
    Except Fault Value :=
  let upper := canonical name
  match frame.get? name with
  | some value => .ok value
  | none =>
  match world.global? name with
  | some value => .ok value
  | none =>
  match world.lookup? name with
  | some o => .ok (.object o)
  | none =>
  if world.flags.contains name then .ok (.atom upper)
  else
    match (propertyReference? upper).filter world.isPropertyName with
    | some property => .ok (.ofName property)
    | none =>
      if (lib.routines.lookup? name).isSome then .ok (.routine upper)
      else .error (.unboundVariable upper)

/-- What a name refers to here and now. -/
def resolveName (lib : Library) (name : String) : Run Value := do
  Run.ofExcept (← Run.read fun m => resolve lib m.world m.frame name)

/-! ### Calls -/

/-- Binds a parameter or local to the value of its default, or to false. -/
def bindDefault (ev : Node → Run Value) (param : Parameter) : Run Unit :=
  match param.default with
  | some node => do
    let value ← (ev node).collapse
    Run.modifyFrame (·.bind param.name value true)
  | none => Run.modifyFrame (·.bind param.name (.bool false) false)

/-- Binds parameters to arguments in order; further arguments are passed over, and parameters
without an argument take their default. -/
def bindParams (ev : Node → Run Value) : List Parameter → List Value → Run Unit
  | [], _ => pure ()
  | param :: params, value :: values => do
    Run.modifyFrame (·.bind param.name value true)
    bindParams ev params values
  | param :: params, [] => do
    bindDefault ev param
    bindParams ev params []

/-- Runs a routine in the current frame. -/
def runRoutine (ev : Node → Run Value) (routine : Routine) (args : List Value) : Run Value := do
  bindParams ev routine.params args
  bindParams ev routine.locals []
  (evalBody ev routine.body).collapse

/-- Calls a routine by name. -/
def callRoutine (lib : Library) (ev : Node → Run Value) (name : String) (args : List Value) :
    Run Value :=
  match lib.routines.lookup? name with
  | none => Run.fail (.noSuchRoutine (canonical name))
  | some routine => fun m =>
    if lib.maxDepth ≤ m.depth then
      (.failed ((Failure.ofFault (.callDepthExceeded lib.maxDepth)).inRoutine routine.name), m)
    else Run.withinCall routine.name (runRoutine ev routine args) m

/-- Calls what a value names. -/
def callValue (lib : Library) (ev : Node → Run Value) (callee : Value) (args : List Value) :
    Run Value :=
  match callee with
  | .routine name => callRoutine lib ev name args
  | .atom name => callRoutine lib ev name args
  | .string name => callRoutine lib ev name args
  | other => Run.fail (.typeMismatch "APPLY" "routine" other.typeName)

end TextAdventure
