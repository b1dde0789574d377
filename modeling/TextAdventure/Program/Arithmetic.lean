import TextAdventure.Failure
import TextAdventure.Program.Operation
import TextAdventure.Value

/-!
Arithmetic and order on values.

Integers have 64 bits: sums, differences and products are reduced to them, and division goes
toward zero.  As soon as a float takes part, the result is a float.

Main statements:
* `foldNumbers` — addition, subtraction, multiplication and division of any number of values;
* `intRemainder` — what integer division leaves, with the sign of the dividend;
* `extremeOf` — the least or the greatest of some numbers;
* `Value.equals`, `compareValues` — equality and order of numbers across the two kinds.
-/

namespace TextAdventure

/-- A number: an integer or a float. -/
inductive Numeric where
  | int (n : Int64)
  | float (x : Binary64)
  deriving DecidableEq, Repr

namespace Numeric

/-- The nearest float. -/
def toFloat : Numeric → Binary64
  | .int n => Binary64.ofInt n.toInt
  | .float x => x

def toValue : Numeric → Value
  | .int n => .int n
  | .float x => .float x

end Numeric

/-- A value as a number, on behalf of an operation. -/
def expectNumber (operation : String) : Value → Except Fault Numeric
  | .int n => .ok (.int n)
  | .float x => .ok (.float x)
  | other => .error (.typeMismatch operation "number" other.typeName)

/-- Values as numbers; the first that is none is the fault. -/
def expectNumbers (operation : String) : List Value → Except Fault (List Numeric)
  | [] => .ok []
  | value :: values => do
    let n ← expectNumber operation value
    let ns ← expectNumbers operation values
    return n :: ns

namespace FoldOp

/-- What no argument yields, and what a single argument is combined with. -/
def identity : FoldOp → Int64
  | .add => 0
  | .sub => 0
  | .mul => 1
  | .div => 1

/-- The operation on two integers. -/
def onInts : FoldOp → Int64 → Int64 → Except Fault Int64
  | .add, a, b => .ok (a + b)
  | .sub, a, b => .ok (a - b)
  | .mul, a, b => .ok (a * b)
  | .div, a, b => if b = 0 then .error .divisionByZero else .ok (a / b)

/-- The operation on two floats. -/
def onFloats : FoldOp → Binary64 → Binary64 → Except Fault Binary64
  | .add, a, b => .ok (a.add b)
  | .sub, a, b => .ok (a.sub b)
  | .mul, a, b => .ok (a.mul b)
  | .div, a, b => if b.isZero then .error .divisionByZero else .ok (a.div b)

/-- The operation on two numbers; two integers yield an integer. -/
def apply (op : FoldOp) : Numeric → Numeric → Except Fault Numeric
  | .int a, .int b => (op.onInts a b).map .int
  | a, b => (op.onFloats a.toFloat b.toFloat).map .float

/-- Combines numbers from left to right, starting with `total`. -/
def accumulate (op : FoldOp) : Numeric → List Numeric → Except Fault Numeric
  | total, [] => .ok total
  | total, n :: ns =>
    match op.apply total n with
    | .ok next => op.accumulate next ns
    | .error fault => .error fault

end FoldOp

/-- The operation on any number of numbers: none yields the identity, and one is combined with
it on the left. -/
def combineNumbers (op : FoldOp) : List Numeric → Except Fault Numeric
  | [] => .ok (.int op.identity)
  | [only] => op.apply (.int op.identity) only
  | first :: rest => op.accumulate first rest

/-- The operation on any number of values. -/
def foldNumbers (op : FoldOp) (values : List Value) : Except Fault Value := do
  let numbers ← expectNumbers op.name values
  let result ← combineNumbers op numbers
  return result.toValue

/-- What the division of `a` by `b` leaves. -/
def intRemainder (a b : Int64) : Except Fault Int64 :=
  if b = 0 then .error .divisionByZero else .ok (a % b)

namespace Extreme

/-- Whether a number is better than the best so far, compared as floats. -/
def prefers : Extreme → Numeric → Numeric → Bool
  | .least, best, n => n.toFloat.lt best.toFloat
  | .greatest, best, n => best.toFloat.lt n.toFloat

/-- The best of some numbers, the first of several equally good. -/
def pick (which : Extreme) (first : Numeric) (rest : List Numeric) : Numeric :=
  rest.foldl (fun best n => if which.prefers best n then n else best) first

end Extreme

/-- The least or the greatest of some values. -/
def extremeOf (which : Extreme) (values : List Value) : Except Fault Value := do
  match ← expectNumbers which.name values with
  | [] => throw (.arity which.name 1 0)
  | first :: rest => return (which.pick first rest).toValue

/-- The magnitude of a number. -/
def absoluteValue : Value → Except Fault Value
  | .int n => .ok (.int n.abs)
  | .float x => .ok (.float x.abs)
  | other => .error (.typeMismatch "ABS" "number" other.typeName)

/-! ### Equality and order -/

/-- Equality as the comparing operations see it: two numbers are compared as floats, which must
then agree bit by bit. -/
def Value.equals (a b : Value) : Bool :=
  match a.number?, b.number? with
  | some x, some y => x.totalKey == y.totalKey
  | _, _ => a.same b

/-- How two values lie to each other: two integers by their exact order, other numbers by the
order of floats. -/
def compareValues (operation : String) (a b : Value) : Except Fault Ordering :=
  match a, b with
  | .int x, .int y => .ok (compare x.toInt y.toInt)
  | _, _ =>
    match a.number?, b.number? with
    | some x, some y => .ok (compare x.totalKey y.totalKey)
    | none, _ => .error (.typeMismatch operation "number" a.typeName)
    | some _, none => .error (.typeMismatch operation "number" b.typeName)

namespace Order

/-- How messages call the comparison. -/
def shortName : Order → String
  | .less => "L?"
  | .greater => "G?"
  | .atMost => "L=?"
  | .atLeast => "G=?"

/-- Whether an ordering is the one asked for. -/
def holds : Order → Ordering → Bool
  | .less, o => o.isLT
  | .greater, o => o.isGT
  | .atMost, o => o.isLE
  | .atLeast, o => o.isGE

end Order

end TextAdventure
