import TextAdventure.NameMap
import TextAdventure.Value

/-!
Frames: the variables of one routine call.

A frame has the routine's own scope and, while blocks are being run, one scope for each of them.
A name is looked up from the innermost scope outward.  Assignment goes to the innermost scope
that binds the name, and a name bound nowhere becomes a variable of the routine's own scope.

Main statements:
* `Frame.get?`, `Frame.bind`, `Frame.assign` — lookup, binding and assignment;
* `Frame.openBlock`, `Frame.closeBlock` — entering and leaving a block.

Design notes.  The routine's own scope is a field of its own, so it is there as long as the
frame is.  The block depth counts the blocks that a `RETURN` would leave.
-/

namespace TextAdventure

/-- A variable: its value, and whether it was ever given one. -/
structure Binding where
  value : Value
  assigned : Bool
  deriving Repr, Inhabited

/-- The variables of one scope. -/
abbrev Scope := NameMap Binding

/-- The variables of one routine call: the routine's own scope, and the scopes of the blocks
being run, innermost first. -/
structure Frame where
  routine : Option String
  outer : Scope
  inner : List Scope
  blockDepth : Nat
  deriving Repr, Inhabited

namespace Frame

/-- The frame for code outside any routine. -/
def topLevel : Frame := ⟨none, .empty, [], 0⟩

/-- The frame for a call of a routine. -/
def forRoutine (name : String) : Frame := ⟨some (canonical name), .empty, [], 0⟩

/-- The first binding of a name in some scopes. -/
def findBinding (name : String) : List Scope → Option Binding
  | [] => none
  | scope :: scopes =>
    match scope.get? name with
    | some binding => some binding
    | none => findBinding name scopes

/-- The innermost binding of a name. -/
def binding? (f : Frame) (name : String) : Option Binding :=
  findBinding (canonical name) (f.inner ++ [f.outer])

/-- The value of a variable. -/
def get? (f : Frame) (name : String) : Option Value := (f.binding? name).map (·.value)

/-- Whether a variable is bound and was given a value. -/
def isAssigned (f : Frame) (name : String) : Bool :=
  match f.binding? name with
  | some binding => binding.assigned
  | none => false

/-- Binds a name in the innermost scope. -/
def bind (f : Frame) (name : String) (value : Value) (assigned : Bool) : Frame :=
  match f.inner with
  | [] => { f with outer := f.outer.insert (canonical name) ⟨value, assigned⟩ }
  | scope :: scopes =>
    { f with inner := scope.insert (canonical name) ⟨value, assigned⟩ :: scopes }

/-- Replaces the first binding of a name in some scopes, if there is one. -/
def replaceBinding (name : String) (binding : Binding) : List Scope → Option (List Scope)
  | [] => none
  | scope :: scopes =>
    if scope.contains name then some (scope.insert name binding :: scopes)
    else (replaceBinding name binding scopes).map (scope :: ·)

/-- Gives a variable a value. -/
def assign (f : Frame) (name : String) (value : Value) : Frame :=
  let name := canonical name
  match replaceBinding name ⟨value, true⟩ f.inner with
  | some scopes => { f with inner := scopes }
  | none => { f with outer := f.outer.insert name ⟨value, true⟩ }

/-- Opens a scope. -/
def pushScope (f : Frame) : Frame := { f with inner := .empty :: f.inner }

/-- Closes the innermost scope; the routine's own scope stays open. -/
def popScope (f : Frame) : Frame := { f with inner := f.inner.tail }

/-- Notes that a block begins. -/
def enterBlock (f : Frame) : Frame := { f with blockDepth := f.blockDepth + 1 }

/-- Notes that a block has ended. -/
def leaveBlock (f : Frame) : Frame := { f with blockDepth := f.blockDepth - 1 }

/-- Whether a block is being run. -/
def inBlock (f : Frame) : Bool := 0 < f.blockDepth

/-- Enters a block with a scope of its own. -/
def openBlock (f : Frame) : Frame := f.pushScope.enterBlock

/-- Leaves a block and closes its scope. -/
def closeBlock (f : Frame) : Frame := f.leaveBlock.popScope

end Frame

end TextAdventure
