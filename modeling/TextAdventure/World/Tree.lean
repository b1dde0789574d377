import TextAdventure.World.Basic

/-!
The tree of containment.

Every object has at most one container, its parent, and every container lists what it holds,
its children.  Moving an object puts it in front of the other children of its new parent.

Main statements:
* `World.move` — refused when it would put an object into itself;
* `World.remove` — takes an object out of the tree, with all it holds;
* `World.isAncestor` — whether one object holds another, at any depth.
-/

namespace TextAdventure.World

/-- The container of an object. -/
def parent? (w : World) (o : ObjectId) : Option ObjectId := (w.object? o).bind (·.parent)

/-- What an object holds, first child first. -/
def children (w : World) (o : ObjectId) : List ObjectId :=
  match w.object? o with
  | some object => object.children
  | none => []

def firstChild? (w : World) (o : ObjectId) : Option ObjectId := (w.children o).head?

/-- The child after a given one in a list of children. -/
def childAfter (o : ObjectId) : List ObjectId → Option ObjectId
  | [] => none
  | c :: cs => if c = o then cs.head? else childAfter o cs

/-- The next child of the same container. -/
def nextSibling? (w : World) (o : ObjectId) : Option ObjectId :=
  (w.parent? o).bind fun p => childAfter o (w.children p)

/-- Whether going up from `o` at most `steps` times meets `ancestor`. -/
def meetsAbove (w : World) (ancestor : ObjectId) : Nat → ObjectId → Bool
  | 0, _ => false
  | steps + 1, o =>
    match w.parent? o with
    | none => false
    | some p => p = ancestor || w.meetsAbove ancestor steps p

/-- Whether `ancestor` holds `o`, at any depth.  No chain of containers is longer than the
number of objects. -/
def isAncestor (w : World) (ancestor o : ObjectId) : Bool :=
  w.meetsAbove ancestor w.objects.length o

/-- Takes an object out of its container. -/
def detach (w : World) (o : ObjectId) : World :=
  match w.parent? o with
  | none => w
  | some p =>
    (w.modifyObject o fun object => { object with parent := none }).modifyObject p
      fun container => { container with children := container.children.filter (· ≠ o) }

/-- Puts an object in front of the children of a container. -/
def attach (w : World) (o container : ObjectId) : World :=
  (w.modifyObject container fun object => { object with children := o :: object.children }
    ).modifyObject o fun object => { object with parent := some container }

/-- Moves an object into a container. -/
def move (w : World) (o container : ObjectId) : Except Fault World := do
  let _ ← w.existing o
  let _ ← w.existing container
  if o = container ∨ w.isAncestor o container then
    throw (.cycle (w.objectName o) (w.objectName container))
  return (w.detach o).attach o container

/-- Takes an object out of the tree; it keeps what it holds. -/
def remove (w : World) (o : ObjectId) : Except Fault World := do
  let _ ← w.existing o
  return w.detach o

end TextAdventure.World
