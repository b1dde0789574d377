import TextAdventure.Program.Control
import TextAdventure.Program.Numbers
import TextAdventure.Program.Objects
import TextAdventure.Program.Output
import TextAdventure.Program.Tables
import TextAdventure.Program.Variables

/-!
Evaluation.

A form calls the operation of its name, with its arguments as they stand, or else the routine of
its name, with its arguments evaluated.  Everything else stands for a value.

Main statements:
* `quote` — a node as data;
* `dispatch` — what a form does, given a way to evaluate its parts;
* `evalStep` — what a node is worth, given a way to evaluate its parts;
* `eval` — evaluation with a bound on nesting and on rounds of a loop;
* `call`, `evalSource` — a routine from outside, and the forms of a text one after another.

Design notes.  The fuel bounds how deep nodes and calls nest and how often each loop is run; it
only tells a run that has not ended from one that has, and any outcome but `exhausted .fuel` stays
the same with more of it.
-/

namespace TextAdventure

/-! ### Quotation -/

mutual

/-- A node as data: nothing in it is evaluated, and a form becomes a list that begins with its
operator. -/
def quote : Node → Value
  | .form operator args _ => .list (.ofName operator :: quoteAll args)
  | .list items _ => .list (quoteAll items)
  | .empty _ => .bool false
  | .atom name _ => .ofName name
  | .reference _ name _ => .ofName name
  | .literal value _ => .ofLiteral value
  | .marked _ body _ => quote body

/-- Nodes as data. -/
def quoteAll : List Node → List Value
  | [] => []
  | node :: nodes => quote node :: quoteAll nodes

end

/-! ### One step -/

/-- Runs an operation on the arguments of a form. -/
def Operation.perform (op : Operation) (lib : Library) (fuel : Nat) (ev : Node → Run Value)
    (args : List Node) : Run Value :=
  match op with
  | .control op => op.perform lib fuel ev args
  | .binding op => op.perform lib ev args
  | .arithmetic op => op.perform ev args
  | .compare op => op.perform ev args
  | .object op => op.perform lib ev args
  | .output op => op.perform ev args
  | .table op => op.perform lib ev args

/-- What a form does. -/
def dispatch (lib : Library) (fuel : Nat) (ev : Node → Run Value) (operator : String)
    (args : List Node) : Run Value :=
  match lib.operations.lookup? operator with
  | some op =>
    if args.length < op.minimum then Run.fail (.arity op.name op.minimum args.length)
    else op.perform lib fuel ev args
  | none =>
    match lib.routines.lookup? operator with
    | some _ => do
      let values ← evalAll ev args
      callRoutine lib ev operator values
    | none => Run.fail (.unsupportedOperation (canonical operator))

/-- What a bare atom is worth: `T` is true, and any other atom itself. -/
def atomValue (name : String) : Value :=
  if sameLetters name "T" then .bool true else .ofName name

/-- What a tagged node is worth. -/
def taggedValue (ev : Node → Run Value) (tag : String) (body : Node) : Run Value :=
  let tag := canonical tag
  if tag = "BYTE" ∨ tag = "WORD" then ev body
  else if tag = "DECL" then pure (.bool false)
  else Run.fail (.unsupportedSyntax ("#" ++ tag ++ " literal"))

/-- What a node is worth, given a way to evaluate its parts. -/
def evalStep (lib : Library) (fuel : Nat) (ev : Node → Run Value) : Node → Run Value
  | .form operator args _ => dispatch lib fuel ev operator args
  | .list items _ => do return .list (← evalAll ev items)
  | .empty _ => pure (.bool false)
  | .atom name _ => pure (atomValue name)
  | .reference _ name _ => resolveName lib name
  | .literal value _ => pure (.ofLiteral value)
  | .marked .quote body _ => pure (quote body)
  | .marked .quasiquote body _ => pure (quote body)
  | .marked .splice body _ => ev body
  | .marked .percent body _ => ev body
  | .marked (.tag tag) body _ => taggedValue ev tag body

/-! ### Evaluation -/

/-- What a node is worth. -/
def eval (lib : Library) : Nat → Node → Run Value
  | 0, _ => Run.exhaust .fuel
  | fuel + 1, node => evalStep lib fuel (eval lib fuel) node

/-- What a node is worth where a signal has nowhere to go. -/
def evalValue (lib : Library) (fuel : Nat) (node : Node) : Run Value :=
  (eval lib fuel node).collapse

/-- Evaluates nodes in order, each on its own, for the value of the last. -/
def evalForms (lib : Library) (fuel : Nat) (nodes : List Node) : Run Value :=
  evalBody (evalValue lib fuel) nodes

/-- Runs an action in a frame of its own outside any routine. -/
def atTopLevel (act : Run Value) : Run Value := fun m =>
  let (outcome, ended) := act { m with frame := .topLevel }
  (outcome, { ended with frame := m.frame })

/-- Calls a routine by name. -/
def call (lib : Library) (fuel : Nat) (name : String) (args : List Value) : Run Value :=
  callRoutine lib (eval lib fuel) name args

/-- Calls what a value names. -/
def applyValue (lib : Library) (fuel : Nat) (callee : Value) (args : List Value) : Run Value :=
  callValue lib (eval lib fuel) callee args

/-- Evaluates the nodes of a text, for the value of the last. -/
def evalSource (lib : Library) (fuel : Nat) (source : String) : Run Value :=
  match parse source with
  | .ok nodes => atTopLevel (evalForms lib fuel nodes)
  | .error f => fun m => (.failed f, m)

end TextAdventure
