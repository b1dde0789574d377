import TextAdventure.Program.Call

/-!
Operations that print.

Main statements:
* `World.describe` — how text refers to an object;
* `tellItems` — prints its items in order, with markers for objects, numbers and line breaks;
* `OutputOp.perform` — the printing operations, and the wish to stop.
-/

namespace TextAdventure

/-- How text refers to an object: by its `DESC` if that is a string, else by its name. -/
def World.describe (w : World) (o : ObjectId) : String :=
  match w.property o "DESC" with
  | .string text => text
  | _ => w.objectName o

/-- A value as text for the player; an object by its description. -/
def World.render (w : World) : Value → String
  | .object o => w.describe o
  | value => value.display

/-- A marker among the items of a `TELL`. -/
inductive TellMarker where
  | newline
  | object
  | number
  deriving DecidableEq, Repr

/-- The marker that an item is, if it is one. -/
def TellMarker.ofNode? (node : Node) : Option TellMarker :=
  match node.atom?.map canonical with
  | some name =>
    if name = "CR" ∨ name = "CRLF" then some .newline
    else if name = "D" then some .object
    else if name = "N" then some .number
    else none
  | none => none

/-- Prints the description of an object. -/
def printObject (operation : String) (value : Value) : Run Unit := do
  let o ← expectObject operation value
  Run.print (← Run.readWorld (·.describe o))

/-- Prints an integer. -/
def printInt (operation : String) (value : Value) : Run Unit := do
  let n ← expectInt operation value
  Run.print (intText n.toInt)

/-- Prints items in order. -/
def tellItems (ev : Node → Run Value) : List Node → Run Value
  | [] => pure (.bool true)
  | node :: rest =>
    match TellMarker.ofNode? node, rest with
    | some .newline, rest => do
      Run.print "\n"
      tellItems ev rest
    | some .object, target :: rest => do
      printObject "TELL" (← ev target)
      tellItems ev rest
    | some .number, target :: rest => do
      printInt "TELL" (← ev target)
      tellItems ev rest
    | some _, [] => Run.fail (.arity "TELL" 1 0)
    | none, rest => do
      let value ← ev node
      Run.print (← Run.readWorld (·.render value))
      tellItems ev rest

/-- The character with a given code. -/
def charOfCode? (code : Int) : Option Char :=
  if h : 0 ≤ code ∧ code.toNat.isValidChar then some (Char.ofNatAux code.toNat h.2) else none

/-- The character that a value stands for. -/
def expectChar : Value → Except Fault Char
  | .char c => .ok c
  | .int n =>
    match charOfCode? n.toInt with
    | some c => .ok c
    | none => .error (.typeMismatch "PRINTC" "character code" "int")
  | other => .error (.typeMismatch "PRINTC" "char" other.typeName)

/-- Runs a printing operation. -/
def OutputOp.perform (op : OutputOp) (ev : Node → Run Value) (args : List Node) : Run Value :=
  match op, args with
  | .tell, args => tellItems ev args
  | .print, node :: _ => do
    let value ← ev node
    Run.print (← Run.readWorld (·.render value))
    return .bool true
  | .printText, node :: _ => do
    let value ← ev node
    Run.print (← Run.readWorld (·.render value))
    return .bool true
  | .describe, node :: _ => do
    printObject "PRINTD" (← ev node)
    return .bool true
  | .number, node :: _ => do
    printInt "PRINTN" (← ev node)
    return .bool true
  | .character, node :: _ => do
    let c ← Run.ofExcept (expectChar (← ev node))
    Run.print c.toString
    return .bool true
  | .newline, _ => do
    Run.print "\n"
    return .bool true
  | .quit, _ => do
    Run.modify fun m => { m with quit := true }
    return .bool true
  | op, args => Run.fail (.arity op.name (Operation.output op).minimum args.length)

end TextAdventure
