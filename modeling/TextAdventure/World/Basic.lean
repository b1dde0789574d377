import TextAdventure.Failure
import TextAdventure.World.Object

/-!
The world: everything a game changes while it is played.

A world holds objects, global variables, the flags and property defaults it knows, tables, and
the three slots that the last command filled.

Main statements:
* `World.freeHandle` — the next handle, as long as there is one;
* `World.register` — a new object, without a place in the tree;
* `World.global?`, `World.setGlobal` — globals, among which the command slots appear by name;
* `World.property`, `World.putProperty` — properties, with the declared default behind them;
* `World.tableGet`, `World.tablePut` — cells of tables.

Design notes.  An operation that can fail yields either the new world or the fault, so a failed
operation leaves the world as it was.
-/

namespace TextAdventure

/-- What the last command was about: its verb, its direct and its indirect object. -/
structure CommandSlots where
  action : Value
  direct : Value
  indirect : Value
  deriving Repr, Inhabited

/-- The slots before any command. -/
def CommandSlots.none : CommandSlots := ⟨.bool false, .bool false, .bool false⟩

/-- One of the three command slots. -/
inductive Slot where
  | action
  | direct
  | indirect
  deriving DecidableEq, Repr

/-- The slot that a global name stands for. -/
def Slot.ofName? (name : String) : Option Slot :=
  if name = "PRSA" then some .action
  else if name = "PRSO" then some .direct
  else if name = "PRSI" then some .indirect
  else none

def CommandSlots.get (s : CommandSlots) : Slot → Value
  | .action => s.action
  | .direct => s.direct
  | .indirect => s.indirect

def CommandSlots.set (s : CommandSlots) (slot : Slot) (value : Value) : CommandSlots :=
  match slot with
  | .action => { s with action := value }
  | .direct => { s with direct := value }
  | .indirect => { s with indirect := value }

/-- The state of a game's world. -/
structure World where
  objects : List GameObject
  globals : NameMap Value
  flags : FlagVocabulary
  propertyDefaults : NameMap Value
  tables : List (Array Value)
  slots : CommandSlots
  deriving Repr, Inhabited

namespace World

/-- The world in which there is nothing. -/
def empty : World := ⟨[], .empty, .empty, .empty, [], .none⟩

/-- The next handle of a kind of which some are in use, unless there is none left. -/
def freeHandle (kind : String) (used : Nat) : Except Fault Nat :=
  if used < handleLimit then .ok used else .error (.outOfHandles kind)

/-! ### Objects -/

/-- The object with a given handle. -/
def object? (w : World) (o : ObjectId) : Option GameObject := w.objects[o.index]?

/-- The object with a given handle, or the fault that there is none. -/
def existing (w : World) (o : ObjectId) : Except Fault GameObject :=
  match w.object? o with
  | some object => .ok object
  | none => .error (.noSuchObject o.label)

/-- Changes one object. -/
def modifyObject (w : World) (o : ObjectId) (change : GameObject → GameObject) : World :=
  { w with objects := w.objects.modify o.index change }

/-- The handle of the object with a given name, in any letter case. -/
def lookup? (w : World) (name : String) : Option ObjectId :=
  let name := canonical name
  (w.objects.findIdx? (·.name == name)).map ObjectId.mk

/-- The name of an object; without an object, a label. -/
def objectName (w : World) (o : ObjectId) : String :=
  match w.object? o with
  | some object => object.name
  | none => o.label

/-- The bits of flags, each made known first. -/
def declareAll (vocabulary : FlagVocabulary) (names : List String) : FlagVocabulary × FlagSet :=
  names.foldl (fun (v, s) name =>
    let (v, bit) := v.declare name
    (v, s.insert bit)) (vocabulary, .empty)

/-- Brings an object into being, without a place in the tree. -/
def register (w : World) (spec : ObjectSpec) : Except Fault (World × ObjectId) :=
  match w.lookup? spec.name with
  | some _ => .error (.duplicateObject (canonical spec.name))
  | none => do
    let index ← freeHandle "objects" w.objects.length
    let (flags, set) := declareAll w.flags spec.flags
    return ({ w with objects := w.objects ++ [spec.object set], flags := flags }, ⟨index⟩)

/-! ### Flags -/

/-- Makes a flag known. -/
def declareFlag (w : World) (name : String) : World :=
  { w with flags := (w.flags.declare name).1 }

/-- Whether an object has a flag; a flag that is not known is on no object. -/
def flag (w : World) (o : ObjectId) (name : String) : Bool :=
  match w.flags.bit? name, w.object? o with
  | some bit, some object => object.flags.contains bit
  | _, _ => false

/-- Changes the bit of a flag on an object; a flag that is not known has no bit. -/
def changeFlag (w : World) (o : ObjectId) (name : String) (change : FlagSet → Nat → FlagSet) :
    Except Fault World := do
  let _ ← w.existing o
  match w.flags.bit? name with
  | some bit => return w.modifyObject o fun object =>
      { object with flags := change object.flags bit }
  | none => return w

def setFlag (w : World) (o : ObjectId) (name : String) : Except Fault World :=
  w.changeFlag o name FlagSet.insert

def clearFlag (w : World) (o : ObjectId) (name : String) : Except Fault World :=
  w.changeFlag o name FlagSet.remove

/-! ### Properties -/

/-- The value of a property: the object's own, else the declared default, else false. -/
def property (w : World) (o : ObjectId) (name : String) : Value :=
  match (w.object? o).bind (·.ownProperty? name) with
  | some value => value
  | none => (w.propertyDefaults.get? (canonical name)).getD (.bool false)

/-- Gives an object a property. -/
def putProperty (w : World) (o : ObjectId) (name : String) (value : Value) :
    Except Fault World := do
  let _ ← w.existing o
  return w.modifyObject o fun object =>
    { object with properties := object.properties.insert (canonical name) value }

/-- Declares what a property is worth on objects that do not carry it. -/
def setPropertyDefault (w : World) (name : String) (value : Value) : World :=
  { w with propertyDefaults := w.propertyDefaults.insert (canonical name) value }

/-- Whether some object carries a property or it has a default. -/
def isPropertyName (w : World) (name : String) : Bool :=
  let name := canonical name
  w.propertyDefaults.contains name || w.objects.any (·.properties.contains name)

/-! ### Globals -/

/-- The value of a global that has one.  The command slots always have one. -/
def global? (w : World) (name : String) : Option Value :=
  let name := canonical name
  match Slot.ofName? name with
  | some slot => some (w.slots.get slot)
  | none => w.globals.get? name

/-- The value of a global, false when it has none. -/
def global (w : World) (name : String) : Value := (w.global? name).getD (.bool false)

/-- Gives a global a value. -/
def setGlobal (w : World) (name : String) (value : Value) : World :=
  let name := canonical name
  match Slot.ofName? name with
  | some slot => { w with slots := w.slots.set slot value }
  | none => { w with globals := w.globals.insert name value }

/-! ### Tables -/

/-- Brings a table into being. -/
def newTable (w : World) (cells : List Value) : Except Fault (World × TableId) := do
  let index ← freeHandle "tables" w.tables.length
  return ({ w with tables := w.tables ++ [cells.toArray] }, ⟨index⟩)

/-- The cells of a table. -/
def table (w : World) (t : TableId) : Except Fault (Array Value) :=
  match w.tables[t.index]? with
  | some cells => .ok cells
  | none => .error (.unknownTable t)

/-- The place in a table that an index means. -/
def cellIndex (index : Int) (length : Nat) : Except Fault Nat :=
  if 0 ≤ index ∧ index.toNat < length then .ok index.toNat
  else .error (.indexOutOfRange index length)

def tableGet (w : World) (t : TableId) (index : Int) : Except Fault Value := do
  let cells ← w.table t
  let i ← cellIndex index cells.size
  return cells.getD i (.bool false)

def tablePut (w : World) (t : TableId) (index : Int) (value : Value) : Except Fault World := do
  let cells ← w.table t
  let i ← cellIndex index cells.size
  return { w with tables := w.tables.set t.index (cells.setIfInBounds i value) }

end World

end TextAdventure
