import TextAdventure.Program.Call

/-!
Operations that choose, repeat and leave.

Main statements:
* `firstClause` — the first clause whose guard holds;
* `conjunction`, `disjunction` — stop at the first argument that decides;
* `ControlOp.perform` — `REPEAT` and `PROG` run in a scope of their own, and `RETURN` leaves
  the innermost of them, or the routine outside all of them.
-/

namespace TextAdventure

/-- The first clause whose guard is truthy: its body, or the guard's value when it has none. -/
def firstClause (ev : Node → Run Value) : List Node → Run Value
  | [] => pure (.bool false)
  | .list (guard :: body) _ :: clauses => do
    let test ← ev guard
    if test.isTruthy then
      if body.isEmpty then return test else evalBody ev body
    else firstClause ev clauses
  | clause :: _ => Run.fail (.typeMismatch "COND" "clause list" clause.kindName)

/-- The first falsy value, or else the last. -/
def conjunction (ev : Node → Run Value) : Value → List Node → Run Value
  | last, [] => pure last
  | _, node :: nodes => do
    let value ← ev node
    if value.isTruthy then conjunction ev value nodes else return value

/-- The first truthy value, or else the last. -/
def disjunction (ev : Node → Run Value) : Value → List Node → Run Value
  | last, [] => pure last
  | _, node :: nodes => do
    let value ← ev node
    if value.isTruthy then return value else disjunction ev value nodes

/-- Binds one entry of a block's binding list: a name, or a name with its value.  Strings are
passed over. -/
def bindEntry (ev : Node → Run Value) : Node → Run Unit
  | .atom name _ => Run.modifyFrame (·.bind name (.bool false) false)
  | .list [.atom name _, node] _ => do
    let value ← ev node
    Run.modifyFrame (·.bind name value true)
  | .list _ _ => Run.fail (.unsupportedSyntax "malformed block binding")
  | .literal (.string _) _ => pure ()
  | other => Run.fail (.typeMismatch "PROG" "binding" other.kindName)

/-- Binds the entries of a binding list in order. -/
def bindEntries (ev : Node → Run Value) : List Node → Run Unit
  | [] => pure ()
  | entry :: entries => do
    bindEntry ev entry
    bindEntries ev entries

/-- Binds a block's leading binding list, if it has one, and yields the nodes after it. -/
def bindBlock (ev : Node → Run Value) : List Node → Run (List Node)
  | .list bindings _ :: body => do
    bindEntries ev bindings
    return body
  | args => pure args

/-- Leaves the innermost block, or the routine when there is none. -/
def leaveWith (value : Value) : Run Value := do
  if ← Run.read (·.frame.inBlock) then Run.raise (.leave value) else Run.raise (.exit value)

/-- Runs a control operation. -/
def ControlOp.perform (op : ControlOp) (lib : Library) (fuel : Nat) (ev : Node → Run Value)
    (args : List Node) : Run Value :=
  match op, args with
  | .cond, args => firstClause ev args
  | .all, args => conjunction ev (.bool true) args
  | .any, args => disjunction ev (.bool false) args
  | .negate, node :: _ => do
    let value ← ev node
    return .bool (!value.isTruthy)
  | .loop, args => Run.withinBlock do
    let body ← bindBlock ev args
    Run.forever (evalEach ev body) fuel
  | .block, args => Run.withinBlock do
    let body ← bindBlock ev args
    evalBody ev body
  | .leave, [] => leaveWith (.bool true)
  | .leave, node :: _ => do
    let value ← ev node
    leaveWith value
  | .succeed, _ => Run.raise .returnTrue
  | .refuse, _ => Run.raise .returnFalse
  | .apply, args => do
    match ← evalAll ev args with
    | [] => Run.fail (.arity "APPLY" 1 0)
    | callee :: values => callValue lib ev callee values
  | op, args => Run.fail (.arity op.name (Operation.control op).minimum args.length)

end TextAdventure
