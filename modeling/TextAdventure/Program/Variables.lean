import TextAdventure.Program.Call

/-!
Operations on variables.

Each takes the name of a variable as it is written, without evaluating it.

Main statements:
* `VariableOp.perform` — assignment, lookup, and whether a variable was given a value.
-/

namespace TextAdventure

/-- A value that must be there. -/
def requireBound (name : String) : Option Value → Run Value
  | some value => pure value
  | none => Run.fail (.unboundVariable name)

/-- Runs an operation on variables. -/
def VariableOp.perform (op : VariableOp) (lib : Library) (ev : Node → Run Value)
    (args : List Node) : Run Value :=
  match op, args with
  | .assign, target :: node :: _ => do
    let name ← literalName ev "SET" target
    let value ← ev node
    Run.modifyFrame (·.assign name value)
    return value
  | .assignGlobal, target :: node :: _ => do
    let name ← literalName ev "SETG" target
    let value ← ev node
    Run.modifyWorld (·.setGlobal name value)
    return value
  | .value, target :: _ => do
    let name ← literalName ev "VALUE" target
    resolveName lib name
  | .localValue, target :: _ => do
    let name ← literalName ev "LVAL" target
    requireBound name (← Run.read (·.frame.get? name))
  | .globalValue, target :: _ => do
    let name ← literalName ev "GVAL" target
    requireBound name (← Run.readWorld (·.global? name))
  | .isAssigned, target :: _ => do
    let name ← literalName ev "ASSIGNED?" target
    return .bool (← Run.read (·.frame.isAssigned name))
  | op, args => Run.fail (.arity op.name (Operation.binding op).minimum args.length)

end TextAdventure
