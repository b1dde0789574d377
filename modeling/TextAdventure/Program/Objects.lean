import TextAdventure.Program.Call

/-!
Operations on objects.

Main statements:
* `ObjectOp.perform` — flags, properties, places, and what the current command is about;
* `verbMatches`, `slotMatches` — whether a command slot holds one of the arguments, which are
  evaluated only as far as needed.
-/

namespace TextAdventure

/-- Whether the command's verb is one of the names, taken up to the first that is. -/
def verbMatches (ev : Node → Run Value) : List Node → Run Bool
  | [] => pure false
  | node :: nodes => do
    let name ← literalName ev "VERB?" node
    let action ← Run.readWorld (·.slots.action)
    if action.same (.ofName name) then return true else verbMatches ev nodes

/-- Whether a command slot holds the value of one of the nodes, evaluated up to the first. -/
def slotMatches (ev : Node → Run Value) (slot : Slot) : List Node → Run Bool
  | [] => pure false
  | node :: nodes => do
    let candidate ← ev node
    let held ← Run.readWorld (·.slots.get slot)
    if held.same candidate then return true else slotMatches ev slot nodes

/-- The holder that a `HELD?` asks about: its second argument, or the actor. -/
def holderArg (lib : Library) (ev : Node → Run Value) : List Node → Run Value
  | [] => Run.readWorld (·.global lib.actorGlobal)
  | node :: _ => ev node

/-- Runs an operation on objects. -/
def ObjectOp.perform (op : ObjectOp) (lib : Library) (ev : Node → Run Value)
    (args : List Node) : Run Value :=
  match op, args with
  | .setFlag, target :: node :: _ => do
    let o ← objectArg ev "FSET" target
    let flag ← nameArg ev "FSET" node
    Run.changeWorld (·.setFlag o flag)
    return .bool true
  | .clearFlag, target :: node :: _ => do
    let o ← objectArg ev "FCLEAR" target
    let flag ← nameArg ev "FCLEAR" node
    Run.changeWorld (·.clearFlag o flag)
    return .bool true
  | .hasFlag, target :: node :: _ => do
    let o ← objectArg ev "FSET?" target
    let flag ← nameArg ev "FSET?" node
    return .bool (← Run.readWorld (·.flag o flag))
  | .getProperty, target :: node :: _ => do
    let o ← objectArg ev "GETP" target
    let property ← nameArg ev "GETP" node
    Run.readWorld (·.property o property)
  | .putProperty, target :: node :: content :: _ => do
    let o ← objectArg ev "PUTP" target
    let property ← nameArg ev "PUTP" node
    let value ← ev content
    Run.changeWorld (·.putProperty o property value)
    return value
  | .move, target :: node :: _ => do
    let o ← objectArg ev "MOVE" target
    let container ← objectArg ev "MOVE" node
    Run.changeWorld (·.move o container)
    return .bool true
  | .remove, target :: _ => do
    let o ← objectArg ev "REMOVE" target
    Run.changeWorld (·.remove o)
    return .bool true
  | .parent, target :: _ => do
    let o ← objectArg ev "LOC" target
    return .ofObject? (← Run.readWorld (·.parent? o))
  | .isIn, target :: node :: _ => do
    let o ← objectArg ev "IN?" target
    let container ← objectArg ev "IN?" node
    return .bool (decide ((← Run.readWorld (·.parent? o)) = some container))
  | .firstChild, target :: _ => do
    let o ← objectArg ev "FIRST?" target
    return .ofObject? (← Run.readWorld (·.firstChild? o))
  | .nextSibling, target :: _ => do
    let o ← objectArg ev "NEXT?" target
    return .ofObject? (← Run.readWorld (·.nextSibling? o))
  | .isHeld, target :: rest => do
    let o ← objectArg ev "HELD?" target
    let holder ← holderArg lib ev rest
    match holder.object? with
    | some h => return .bool (← Run.readWorld (·.isAncestor h o))
    | none => return .bool false
  | .isVerb, args => do return .bool (← verbMatches ev args)
  | .isDirect, args => do return .bool (← slotMatches ev .direct args)
  | .isIndirect, args => do return .bool (← slotMatches ev .indirect args)
  | op, args => Run.fail (.arity op.name (Operation.object op).minimum args.length)

end TextAdventure
