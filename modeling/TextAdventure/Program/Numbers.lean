import TextAdventure.Program.Arithmetic
import TextAdventure.Program.Call

/-!
Operations on numbers.

Main statements:
* `ArithmeticOp.perform` — calculation and chance;
* `anyEqual` — whether the first argument equals one of the others, which are evaluated only as
  far as needed;
* `CompareOp.perform` — equality and order.
-/

namespace TextAdventure

/-- Runs an arithmetic operation. -/
def ArithmeticOp.perform (op : ArithmeticOp) (ev : Node → Run Value) (args : List Node) :
    Run Value :=
  match op, args with
  | .fold f, args => do
    let values ← evalAll ev args
    Run.ofExcept (foldNumbers f values)
  | .remainder, left :: right :: _ => do
    let a ← ev left
    let b ← ev right
    let a ← expectInt "MOD" a
    let b ← expectInt "MOD" b
    let n ← Run.ofExcept (intRemainder a b)
    return .int n
  | .extreme which, args => do
    let values ← evalAll ev args
    Run.ofExcept (extremeOf which values)
  | .absolute, node :: _ => do
    let value ← ev node
    Run.ofExcept (absoluteValue value)
  | .random, node :: _ => do
    let limit ← expectInt "RANDOM" (← ev node)
    if limit < 1 then Run.fail (.typeMismatch "RANDOM" "positive int" "int")
    else
      let n ← Run.random limit
      return .int n
  | .chance, node :: _ => do
    let chance ← expectInt "PROB" (← ev node)
    let n ← Run.random 100
    return .bool (n ≤ chance)
  | op, args => Run.fail (.arity op.name (Operation.arithmetic op).minimum args.length)

/-- Whether a value equals that of one of the nodes, evaluated up to the first that does. -/
def anyEqual (ev : Node → Run Value) (first : Value) : List Node → Run Bool
  | [] => pure false
  | node :: nodes => do
    let candidate ← ev node
    if first.equals candidate then return true else anyEqual ev first nodes

/-- Runs a comparing operation. -/
def CompareOp.perform (op : CompareOp) (ev : Node → Run Value) (args : List Node) : Run Value :=
  match op, args with
  | .equal, node :: nodes => do
    let first ← ev node
    return .bool (← anyEqual ev first nodes)
  | .differ, node :: nodes => do
    let first ← ev node
    return .bool (!(← anyEqual ev first nodes))
  | .order which, left :: right :: _ => do
    let a ← ev left
    let b ← ev right
    let ordering ← Run.ofExcept (compareValues which.shortName a b)
    return .bool (which.holds ordering)
  | .isZero, node :: _ => do
    let value ← ev node
    return .bool (value.equals (.int 0))
  | .isOne, node :: _ => do
    let value ← ev node
    return .bool (value.equals (.int 1))
  | op, args => Run.fail (.arity op.name (Operation.compare op).minimum args.length)

end TextAdventure
