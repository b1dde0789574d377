import TextAdventure.Failure
import TextAdventure.NameMap
import TextAdventure.Text.Letter

/-!
Routines.

A routine has parameters, which a call fills from its arguments, and further locals; both may
have an expression for the value they take otherwise.

Main statements:
* `Routine.ofDeclaration` — a routine from its argument list and body.
-/

namespace TextAdventure

/-- A parameter or local of a routine, and the expression for its value when none is given. -/
structure Parameter where
  name : String
  default : Option Node
  deriving Repr, Inhabited

/-- A routine.  Its name and those of its parameters are in canonical spelling. -/
structure Routine where
  name : String
  params : List Parameter
  locals : List Parameter
  body : List Node
  deriving Repr, Inhabited

/-- Which part of an argument list an entry belongs to. -/
inductive ArgumentPart where
  | params
  | locals
  deriving DecidableEq, Repr

namespace Routine

/-- The part of an argument list that a marker string begins. -/
def partOf? (marker : String) : Option ArgumentPart :=
  let marker := canonical marker
  if marker = "OPT" ∨ marker = "OPTIONAL" then some .params
  else if marker = "AUX" ∨ marker = "EXTRA" then some .locals
  else none

/-- One entry of an argument list: a marker, or a parameter. -/
def entry (name : String) : Node → Except Fault (ArgumentPart ⊕ Parameter)
  | .literal (.string marker) _ =>
    match partOf? marker with
    | some part => .ok (.inl part)
    | none => .error (.unsupportedSyntax
        ("argument list marker \"" ++ canonical marker ++ "\" in " ++ name))
  | .atom param _ => .ok (.inr ⟨canonical param, none⟩)
  | .list [.atom param _, default] _ => .ok (.inr ⟨canonical param, some default⟩)
  | .list _ _ => .error (.unsupportedSyntax ("malformed argument entry in " ++ name))
  | other => .error (.unsupportedSyntax (other.kindName ++ " in argument list of " ++ name))

/-- The parameters and the locals of an argument list. -/
def entries (name : String) : ArgumentPart → List Node →
    Except Fault (List Parameter × List Parameter)
  | _, [] => .ok ([], [])
  | part, node :: nodes => do
    match ← entry name node with
    | .inl next => entries name next nodes
    | .inr param =>
      let (params, locals) ← entries name part nodes
      match part with
      | .params => return (param :: params, locals)
      | .locals => return (params, param :: locals)

/-- The routine with a given name, argument list and body. -/
def ofDeclaration (name : String) (arguments : List Node) (body : List Node) :
    Except Fault Routine := do
  let (params, locals) ← entries name .params arguments
  return ⟨canonical name, params, locals, body⟩

end Routine

/-- The routines of a game by name. -/
abbrev RoutineTable := NameMap Routine

namespace RoutineTable

/-- The routine with a given name, in any letter case. -/
def lookup? (routines : RoutineTable) (name : String) : Option Routine :=
  routines.get? (canonical name)

/-- Adds a routine, replacing one of the same name. -/
def define (routines : RoutineTable) (routine : Routine) : RoutineTable :=
  routines.insert routine.name routine

end RoutineTable

end TextAdventure
