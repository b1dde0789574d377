import TextAdventure.Source.Reader
import TextAdventure.World.Handle

/-!
Failures: what can go wrong when a game is read, loaded or played.

A `Fault` is the cause.  A `Failure` adds, where it is known, the place in a source unit and the
routines that were active, innermost first.

Main statements:
* `Fault.message` — the wording of every fault;
* `Failure.inRoutine` — a failure on its way out of a routine notes the routine's name.
-/

namespace TextAdventure

/-- The cause of a failure. -/
inductive Fault where
  | unreadable (fault : SyntaxFault) (line column : Nat) (text : String)
  | duplicateObject (name : String)
  | unboundVariable (name : String)
  | unsupportedOperation (name : String)
  | noSuchRoutine (name : String)
  | arity (operation : String) (minimum actual : Nat)
  | typeMismatch (operation expected actual : String)
  | divisionByZero
  | callDepthExceeded (limit : Nat)
  | unsupportedSyntax (construct : String)
  | indexOutOfRange (index : Int) (length : Nat)
  | noSuchObject (name : String)
  | cycle (object container : String)
  | unknownTable (table : TableId)
  | outOfHandles (kind : String)
  | unfinishedInput
  | input (problem : String)
  deriving DecidableEq, Repr

/-- The wording of a fault. -/
def Fault.message : Fault → String
  | .unreadable fault line column _ =>
    "syntax error at " ++ intText line ++ ":" ++ intText column ++ ": " ++ fault.message
  | .duplicateObject name => "duplicate object: " ++ name
  | .unboundVariable name => "unbound variable: " ++ name
  | .unsupportedOperation name => "unsupported operation: " ++ name
  | .noSuchRoutine name => "no such routine: " ++ name
  | .arity operation minimum actual =>
    operation ++ " requires at least " ++ intText minimum ++ " argument(s), got " ++
      intText actual
  | .typeMismatch operation expected actual =>
    operation ++ ": expected " ++ expected ++ ", got " ++ actual
  | .divisionByZero => "division by zero"
  | .callDepthExceeded limit => "call depth exceeded (limit " ++ intText limit ++ ")"
  | .unsupportedSyntax construct => "unsupported syntax: " ++ construct
  | .indexOutOfRange index length =>
    "index " ++ intText index ++ " out of range for table of length " ++ intText length
  | .noSuchObject name => "no such object: " ++ name
  | .cycle object container =>
    "internal error: cycle: cannot move " ++ object ++ " into " ++ container
  | .unknownTable table => "internal error: unknown table " ++ table.label
  | .outOfHandles kind => "internal error: too many " ++ kind
  | .unfinishedInput => "internal error: unexpected EOF in multi-line input"
  | .input problem => "internal error: " ++ problem

/-- A place in a named source unit. -/
structure Origin where
  source : String
  line : Nat
  column : Nat
  deriving DecidableEq, Repr

/-- Where a failure arose: a place in the source, and the active routines, innermost first. -/
structure Context where
  origin : Option Origin
  stack : List String
  deriving DecidableEq, Repr

/-- The wording of a context. -/
def Context.text (c : Context) : String :=
  let place :=
    match c.origin with
    | some o => "at " ++ o.source ++ ":" ++ intText o.line ++ ":" ++ intText o.column
    | none => ""
  let frames := c.stack.map fun routine => "  in " ++ routine ++ "\n"
  if c.stack.isEmpty then place else place ++ "\n" ++ String.join frames

/-- A fault together with what is known about where it arose. -/
structure Failure where
  fault : Fault
  context : Option Context
  deriving DecidableEq, Repr

namespace Failure

/-- A failure about whose place nothing is known. -/
def ofFault (fault : Fault) : Failure := ⟨fault, none⟩

/-- The wording of a failure is that of its fault. -/
def message (f : Failure) : String := f.fault.message

/-- Notes a routine that the failure leaves. -/
def inRoutine (f : Failure) (routine : String) : Failure :=
  match f.context with
  | some c => { f with context := some { c with stack := c.stack ++ [routine] } }
  | none => { f with context := some ⟨none, [routine]⟩ }

/-- A mistake in a source text, with the line it stands in. -/
def ofSyntaxError (source : String) (e : SyntaxError) : Failure :=
  ofFault (.unreadable e.fault e.span.line e.span.column (lineText source.toList e.span.line))

/-- Notes the source unit in which a mistake stands. -/
def inSource (f : Failure) (source : String) : Failure :=
  match f.fault with
  | .unreadable _ line column _ => { f with context := some ⟨some ⟨source, line, column⟩, []⟩ }
  | _ => f

end Failure

/-! ### Reading sources -/

/-- Every node of a source text. -/
def parse (source : String) : Except Failure (List Node) :=
  (parseNodes source).mapError (Failure.ofSyntaxError source)

/-- The first node of a source text. -/
def parseOne (source : String) : Except Failure Node :=
  (parseFirst source).mapError (Failure.ofSyntaxError source)

/-- The nodes of a source text that can be read, and a failure for each mistake. -/
def parseRecovering (source : String) : List Node × List Failure :=
  let (nodes, errors) := parseAllowingErrors source
  (nodes, errors.map (Failure.ofSyntaxError source))

end TextAdventure
