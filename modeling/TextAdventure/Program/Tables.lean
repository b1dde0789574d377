import TextAdventure.Program.Call

/-!
Operations on tables.

Main statements:
* `tableFlags` — a leading list of atoms says how a table is laid out;
* `TableOp.perform` — making tables, and reading and writing their cells.
-/

namespace TextAdventure

/-- Splits off a leading list of atoms; whether `LENGTH` is among them, and the other nodes. -/
def tableFlags : List Node → Bool × List Node
  | .list (flag :: flags) span :: rest =>
    match (flag :: flags).mapM Node.atom? with
    | some names => (names.any (sameLetters · "LENGTH"), rest)
    | none => (false, .list (flag :: flags) span :: rest)
  | args => (false, args)

/-- Makes a table of some cells. -/
def makeTable (cells : List Value) : Run Value := fun m =>
  match m.world.newTable cells with
  | .ok (world, t) => (.done (.table t), { m with world := world })
  | .error fault => (.failed (.ofFault fault), m)

/-- Makes a table of a number of equal cells.  More cells than fit into memory are no failure that
a program could be told of. -/
def makeFilled (lib : Library) (count : Nat) (fill : Value) : Run Value :=
  if count ≤ lib.maxCells then makeTable (List.replicate count fill)
  else Run.exhaust (.memory count)

/-- Makes a table of the values of nodes; a counted table has their number in front. -/
def tableOf (ev : Node → Run Value) (counted : Bool) (args : List Node) : Run Value := do
  let (flagged, items) := tableFlags args
  let values ← evalAll ev items
  if counted || flagged then makeTable (.int (Int64.ofNat values.length) :: values)
  else makeTable values

/-- The value of the first node, or zero when there is none. -/
def fillValue (ev : Node → Run Value) : List Node → Run Value
  | [] => pure (.int 0)
  | node :: _ => ev node

/-- Makes a table of as many equal cells as the first node says. -/
def filledTable (lib : Library) (ev : Node → Run Value) (args : List Node) : Run Value :=
  match (tableFlags args).2 with
  | [] => pure (.bool false)
  | node :: rest => do
    let count ← expectInt "ITABLE" (← ev node)
    let fill ← fillValue ev rest
    makeFilled lib count.toInt.toNat fill

/-- The low eight bits of an integer; other values as they are. -/
def byteOf : Value → Value
  | .int n => .int (n &&& 0xFF)
  | other => other

/-- Reads a cell. -/
def readCell (ev : Node → Run Value) (target node : Node) : Run Value := do
  let table ← ev target
  let index ← ev node
  let t ← expectTable "GET" table
  let i ← expectInt "GET" index
  Run.ofExcept (← Run.readWorld (·.tableGet t i.toInt))

/-- Writes a cell, and yields what was written. -/
def writeCell (ev : Node → Run Value) (operation : String) (convert : Value → Value)
    (target node content : Node) : Run Value := do
  let table ← ev target
  let index ← ev node
  let value := convert (← ev content)
  let t ← expectTable operation table
  let i ← expectInt operation index
  Run.changeWorld (·.tablePut t i.toInt value)
  return value

/-- Runs an operation on tables. -/
def TableOp.perform (op : TableOp) (lib : Library) (ev : Node → Run Value) (args : List Node) :
    Run Value :=
  match op, args with
  | .make, args => tableOf ev false args
  | .makeCounted, args => tableOf ev true args
  | .fill, args => filledTable lib ev args
  | .get, target :: node :: _ => readCell ev target node
  | .getByte, target :: node :: _ => readCell ev target node
  | .put, target :: node :: content :: _ => writeCell ev "PUT" id target node content
  | .putByte, target :: node :: content :: _ => writeCell ev "PUTB" byteOf target node content
  | op, args => Run.fail (.arity op.name (Operation.table op).minimum args.length)

end TextAdventure
