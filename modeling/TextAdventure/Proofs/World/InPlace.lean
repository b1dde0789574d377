import TextAdventure.Proofs.Play.Naming
import TextAdventure.Proofs.World.Moving

/-!
Changing a world in place.

A world may be kept as one store that operations change part by part, with an index of the names
of its objects, one of the numbers of its flags, and a list of the property names in use.  An
operation that fails half-way would leave such a store half-changed.  None does: each makes all its
checks before its first change, and where a later step could fail, the forest rules it out.

* `Store`, `Store.Coherent` — a world with two indexes and a list that agree with it;
* `Store.Call`, `Call.inPlace`, `Call.apply` — the operations that can fail, step by step on a
  store, and at once on a world;
* `Store.relocate_eq`, `Store.detach_eq` — in a forest the steps of a move never fail;
* `Store.agrees` — both ways have the same effect;
* `Store.failed_call_unchanged` — so a call that fails leaves the store as it was.

Design notes.  The state of an action stays as it is when the action fails, so that what was
changed before the failure is seen afterwards.
-/

namespace TextAdventure

/-- A world that is changed in place, with an index of the names of its objects, an index of the
numbers of its flags, and a list of the names of properties. -/
structure Store where
  world : World
  names : NameMap ObjectId
  flagBits : NameMap Nat
  propertyNames : List String

/-- An action on a store.  Whatever the outcome, the changes made so far stay. -/
abbrev InPlace (α : Type) : Type := EStateM Fault Store α

namespace Store

/-! ### Single steps -/

/-- Something read off the world, which may fail. -/
def consult {α : Type} (f : World → Except Fault α) : InPlace α := fun s =>
  match f s.world with
  | .ok a => .ok a s
  | .error fault => .error fault s

def modifyWorld (f : World → World) : InPlace Unit :=
  modify fun s => { s with world := f s.world }

/-- Changes one object, which has to exist. -/
def changeObject (o : ObjectId) (change : GameObject → GameObject) : InPlace Unit := do
  let _ ← consult (·.existing o)
  modifyWorld (·.modifyObject o change)

/-- Notes the name of a property. -/
def noteProperty (name : String) : InPlace Unit :=
  modify fun s => { s with propertyNames := s.propertyNames.insert name }

/-- The number of a flag, as the index has it. -/
def flagBit (name : String) : InPlace (Option Nat) := fun s =>
  .ok (s.flagBits.get? (canonical name)) s

/-- Makes a flag known unless the index has it, and gives its number. -/
def declareFlag (name : String) : InPlace Nat := do
  match ← flagBit name with
  | some bit => return bit
  | none =>
    let bit ← consult fun w => .ok w.flags.size
    modifyWorld fun w => { w with flags := ⟨w.flags.names ++ [canonical name]⟩ }
    modify fun s => { s with flagBits := s.flagBits.insert (canonical name) bit }
    return bit

/-! ### Operations -/

/-- Takes an object out of its container: first the object forgets the container, then the
container the object. -/
def detach (o : ObjectId) : InPlace Unit := do
  let object ← consult (·.existing o)
  match object.parent with
  | none => pure ()
  | some p => do
    changeObject o fun object => { object with parent := none }
    changeObject p fun container =>
      { container with children := container.children.filter (· ≠ o) }

/-- What is checked before anything is moved. -/
def checkMove (o container : ObjectId) : InPlace Unit := do
  let _ ← consult (·.existing o)
  let _ ← consult (·.existing container)
  consult fun w =>
    if o = container ∨ w.isAncestor o container then
      .error (.cycle (w.objectName o) (w.objectName container))
    else .ok ()

/-- Moves an object once everything is checked. -/
def relocate (o container : ObjectId) : InPlace Unit := do
  detach o
  changeObject container fun object => { object with children := o :: object.children }
  changeObject o fun object => { object with parent := some container }

def move (o container : ObjectId) : InPlace Unit := do
  checkMove o container
  relocate o container

def remove (o : ObjectId) : InPlace Unit := do
  let _ ← consult (·.existing o)
  detach o

def changeFlag (o : ObjectId) (name : String) (change : FlagSet → Nat → FlagSet) :
    InPlace Unit := do
  let bit? ← flagBit name
  let _ ← consult (·.existing o)
  match bit? with
  | some bit => modifyWorld (·.modifyObject o fun object =>
      { object with flags := change object.flags bit })
  | none => pure ()

def putProperty (o : ObjectId) (name : String) (value : Value) : InPlace Unit := do
  changeObject o fun object =>
    { object with properties := object.properties.insert (canonical name) value }
  noteProperty (canonical name)

/-- Makes flags known one after another, and collects their bits. -/
def declareFlags : FlagSet → List String → InPlace FlagSet
  | set, [] => pure set
  | set, name :: names => do
    let bit ← declareFlag name
    declareFlags (set.insert bit) names

/-- Notes the names of properties one after another, and collects the properties. -/
def noteProperties : NameMap Value → List (String × Value) → InPlace (NameMap Value)
  | properties, [] => pure properties
  | properties, (name, value) :: rest => do
    noteProperty (canonical name)
    noteProperties (properties.insert (canonical name) value) rest

/-- Fails when an object has a name already. -/
def checkName (name : String) : InPlace Unit := fun s =>
  if s.names.contains name then .error (.duplicateObject name) s else .ok () s

def register (spec : ObjectSpec) : InPlace ObjectId := do
  let name := canonical spec.name
  checkName name
  let index ← consult fun w => World.freeHandle "objects" w.objects.length
  let flags ← declareFlags .empty spec.flags
  let properties ← noteProperties .empty spec.properties
  modifyWorld fun w => { w with
    objects := w.objects ++ [{ spec.object flags with properties := properties }] }
  modify fun s => { s with names := s.names.insert name ⟨index⟩ }
  return ⟨index⟩

def newTable (cells : List Value) : InPlace TableId := do
  let index ← consult fun w => World.freeHandle "tables" w.tables.length
  modifyWorld fun w => { w with tables := w.tables ++ [cells.toArray] }
  return ⟨index⟩

def tableGet (t : TableId) (index : Int) : InPlace Value := do
  let cells ← consult (·.table t)
  let i ← consult fun _ => World.cellIndex index cells.size
  return cells.getD i (.bool false)

def tablePut (t : TableId) (index : Int) (value : Value) : InPlace Unit := do
  let cells ← consult (·.table t)
  let i ← consult fun _ => World.cellIndex index cells.size
  modifyWorld fun w => { w with tables := w.tables.set t.index (cells.setIfInBounds i value) }

/-! ### Sequences of steps -/

section

variable {α β : Type} {act : InPlace α} {next : α → InPlace β} {s s' : Store}

theorem bind_of_ok {a : α} (h : act s = .ok a s') : (act >>= next) s = next a s' := by
  show EStateM.bind act next s = _
  rw [EStateM.bind, h]

theorem bind_of_error {fault : Fault} (h : act s = .error fault s') :
    (act >>= next) s = .error fault s' := by
  show EStateM.bind act next s = _
  rw [EStateM.bind, h]

theorem consult_of_ok {f : World → Except Fault α} {a : α} (h : f s.world = .ok a) :
    consult f s = .ok a s := by
  rw [consult, h]

theorem consult_of_error {f : World → Except Fault α} {fault : Fault}
    (h : f s.world = .error fault) : consult f s = .error fault s := by
  rw [consult, h]

end

section

variable {s : Store}

theorem changeObject_of_has {o : ObjectId} (ho : s.world.Has o)
    (change : GameObject → GameObject) :
    changeObject o change s = .ok () { s with world := s.world.modifyObject o change } := by
  obtain ⟨object, hobject⟩ := World.existing_of_has ho
  rw [changeObject, bind_of_ok (consult_of_ok hobject)]
  rfl

/-- In a forest, taking an object out of its container never fails half-way: the container that
the object names exists. -/
theorem detach_eq (hf : s.world.Forest) {o : ObjectId} (ho : s.world.Has o) :
    detach o s = .ok () { s with world := s.world.detach o } := by
  obtain ⟨object, hobject⟩ := World.existing_of_has ho
  have hparent : s.world.parent? o = object.parent := by
    rw [World.parent?, World.existing_eq_ok hobject]
    rfl
  rw [detach, bind_of_ok (consult_of_ok hobject), World.detach, hparent]
  rcases hp : object.parent with _ | p
  · rfl
  · have hcontainer : s.world.Has p := hf.parent_has (hparent.trans hp)
    dsimp only
    rw [bind_of_ok (changeObject_of_has ho _), changeObject_of_has]
    rw [World.Has, World.modifyObject, List.length_modify]
    exact hcontainer

/-- In a forest, the steps of a move never fail. -/
theorem relocate_eq (hf : s.world.Forest) {o container : ObjectId} (ho : s.world.Has o)
    (hc : s.world.Has container) :
    relocate o container s =
      .ok () { s with world := (s.world.detach o).attach o container } := by
  rw [relocate, bind_of_ok (detach_eq hf ho),
    bind_of_ok (changeObject_of_has (World.has_detach.mpr hc) _), changeObject_of_has]
  · rfl
  · rw [World.Has, World.modifyObject, List.length_modify]
    exact World.has_detach.mpr ho

theorem checkMove_eq (o container : ObjectId) :
    checkMove o container s =
      match s.world.move o container with
      | .ok _ => .ok () s
      | .error fault => .error fault s := by
  rcases ho : s.world.existing o with fault | object
  · rw [checkMove, bind_of_error (consult_of_error ho), World.move, ho]
    rfl
  rcases hc : s.world.existing container with fault | target
  · rw [checkMove, bind_of_ok (consult_of_ok ho), bind_of_error (consult_of_error hc), World.move,
      ho, hc]
    rfl
  rw [checkMove, bind_of_ok (consult_of_ok ho), bind_of_ok (consult_of_ok hc), World.move, ho, hc]
  by_cases hcycle : o = container ∨ s.world.isAncestor o container
  · simp only [consult, bind, Except.bind, if_pos hcycle]
    rfl
  · simp only [consult, bind, Except.bind, if_neg hcycle]
    rfl

end

/-! ### The indexes and the list agree with the world -/

/-- The indexes find what is found by name, and the list holds the names of all properties that an
object carries or that have a default. -/
structure Coherent (s : Store) : Prop where
  names : ∀ name, s.names.get? (canonical name) = s.world.lookup? name
  flagBits : ∀ name, s.flagBits.get? (canonical name) = s.world.flags.bit? name
  propertyNames : ∀ name,
    canonical name ∈ s.propertyNames ↔ s.world.isPropertyName name = true

/-- What the names of objects and properties are read off. -/
def indexed (w : World) : List (String × NameMap Value) × NameMap Value :=
  (w.objects.map fun object => (object.name, object.properties), w.propertyDefaults)

theorem lookup?_of_indexed {w w' : World} (h : indexed w' = indexed w) (name : String) :
    w'.lookup? name = w.lookup? name := by
  have hnames : w'.names = w.names := by
    have hlist := congrArg (fun shown => shown.1.map Prod.fst) h
    simpa [indexed, World.names, Function.comp_def] using hlist
  rw [World.lookup?_eq_idxOf?, World.lookup?_eq_idxOf?, hnames]

theorem isPropertyName_eq (w : World) (name : String) :
    w.isPropertyName name =
      ((indexed w).2.contains (canonical name) ||
        (indexed w).1.any fun shown => shown.2.contains (canonical name)) := by
  rw [World.isPropertyName, indexed, List.any_map]
  rfl

theorem isPropertyName_of_indexed {w w' : World} (h : indexed w' = indexed w) (name : String) :
    w'.isPropertyName name = w.isPropertyName name := by
  rw [isPropertyName_eq, isPropertyName_eq, h]

/-- Changes that have nothing to do with names, properties and the numbers of flags. -/
theorem Coherent.withWorld {s : Store} (hs : s.Coherent) {w : World}
    (h : indexed w = indexed s.world) (hflags : w.flags = s.world.flags) :
    Coherent { s with world := w } where
  names name := (hs.names name).trans (lookup?_of_indexed h name).symm
  flagBits := hflags ▸ hs.flagBits
  propertyNames name := by
    rw [isPropertyName_of_indexed h]
    exact hs.propertyNames name

theorem indexed_modifyObject (w : World) (o : ObjectId) {change : GameObject → GameObject}
    (hname : ∀ object, (change object).name = object.name)
    (hproperties : ∀ object, (change object).properties = object.properties) :
    indexed (w.modifyObject o change) = indexed w := by
  rw [indexed, World.map_modifyObject _ w o fun object => by rw [hname, hproperties]]
  rfl

theorem indexed_of_unplaced {w w' : World} (h : w'.unplaced = w.unplaced) :
    indexed w' = indexed w := by
  have hbare (v : World) : indexed v.unplaced = indexed v := by
    rw [indexed, indexed, World.unplaced, List.map_map]
    rfl
  rw [← hbare w', h, hbare]

theorem Coherent.of_unplaced {s : Store} (hs : s.Coherent) {w : World}
    (h : w.unplaced = s.world.unplaced) : Coherent { s with world := w } :=
  hs.withWorld (indexed_of_unplaced h) (congrArg (fun v : World => v.flags) h :)

/-! ### Calls -/

/-- The operations that can fail. -/
inductive Call where
  | register (spec : ObjectSpec)
  | move (o container : ObjectId)
  | remove (o : ObjectId)
  | setFlag (o : ObjectId) (name : String)
  | clearFlag (o : ObjectId) (name : String)
  | putProperty (o : ObjectId) (name : String) (value : Value)
  | newTable (cells : List Value)
  | tableGet (t : TableId) (index : Int)
  | tablePut (t : TableId) (index : Int) (value : Value)

namespace Call

/-- What a call gives back. -/
def Answer : Call → Type
  | .register _ => ObjectId
  | .newTable _ => TableId
  | .tableGet _ _ => Value
  | _ => Unit

/-- A call step by step, on a store. -/
def inPlace : (c : Call) → InPlace c.Answer
  | .register spec => Store.register spec
  | .move o container => Store.move o container
  | .remove o => Store.remove o
  | .setFlag o name => Store.changeFlag o name FlagSet.insert
  | .clearFlag o name => Store.changeFlag o name FlagSet.remove
  | .putProperty o name value => Store.putProperty o name value
  | .newTable cells => Store.newTable cells
  | .tableGet t index => Store.tableGet t index
  | .tablePut t index value => Store.tablePut t index value

/-- A call at once, on a world. -/
def apply (w : World) : (c : Call) → Except Fault (c.Answer × World)
  | .register spec => (w.register spec).map fun made => (made.2, made.1)
  | .move o container => (w.move o container).map fun w' => ((), w')
  | .remove o => (w.remove o).map fun w' => ((), w')
  | .setFlag o name => (w.setFlag o name).map fun w' => ((), w')
  | .clearFlag o name => (w.clearFlag o name).map fun w' => ((), w')
  | .putProperty o name value => (w.putProperty o name value).map fun w' => ((), w')
  | .newTable cells => (w.newTable cells).map fun made => (made.2, made.1)
  | .tableGet t index => (w.tableGet t index).map fun value => (value, w)
  | .tablePut t index value => (w.tablePut t index value).map fun w' => ((), w')

/-- A call that a program or the loading of a game makes on a machine. -/
def run : Call → Run Unit
  | .register spec => Run.changeWorld fun w => (w.register spec).map (·.1)
  | .move o container => Run.changeWorld (·.move o container)
  | .remove o => Run.changeWorld (·.remove o)
  | .setFlag o name => Run.changeWorld (·.setFlag o name)
  | .clearFlag o name => Run.changeWorld (·.clearFlag o name)
  | .putProperty o name value => Run.changeWorld (·.putProperty o name value)
  | .newTable cells => do
    let _ ← makeTable cells
  | .tableGet t index => do
    let _ ← Run.ofExcept (← Run.readWorld (·.tableGet t index))
  | .tablePut t index value => Run.changeWorld (·.tablePut t index value)

end Call

/-- What a call did step by step is what it does at once. -/
inductive Agrees {α : Type} (s : Store) :
    Except Fault (α × World) → EStateM.Result Fault Store α → Prop
  | ok (a : α) {t : Store} (ht : t.Coherent) : Agrees s (.ok (a, t.world)) (.ok a t)
  | error (fault : Fault) : Agrees s (.error fault) (.error fault s)

/-- A check that both make first. -/
theorem Agrees.consult {α β γ : Type} {s : Store} {f : World → Except Fault α}
    {e : Except Fault α} {g : α → Except Fault β} {answer : β → γ × World} {next : α → InPlace γ}
    (he : f s.world = e) (h : ∀ a, e = .ok a → Agrees s ((g a).map answer) (next a s)) :
    Agrees s ((e >>= g).map answer) ((Store.consult f >>= next) s) := by
  rcases e with fault | a
  · rw [bind_of_error (consult_of_error he)]
    exact .error fault
  · rw [bind_of_ok (consult_of_ok he)]
    exact h a rfl

section

variable {s : Store} (hs : s.Coherent)
include hs

theorem move_agrees (hf : s.world.Forest) (o container : ObjectId) :
    Agrees s ((s.world.move o container).map fun w => ((), w)) (move o container s) := by
  have hcheck := checkMove_eq (s := s) o container
  rcases hmove : s.world.move o container with fault | w
  · rw [hmove] at hcheck
    rw [move, bind_of_error hcheck]
    exact .error fault
  · rw [hmove] at hcheck
    obtain ⟨⟨ho, hc, -, -⟩, rfl⟩ := hf.move_eq_ok_iff.mp hmove
    rw [move, bind_of_ok hcheck, relocate_eq hf ho hc]
    refine .ok () (t := { s with world := (s.world.detach o).attach o container })
      (hs.of_unplaced ?_)
    rw [World.unplaced_attach, World.unplaced_detach]

theorem remove_agrees (hf : s.world.Forest) (o : ObjectId) :
    Agrees s ((s.world.remove o).map fun w => ((), w)) (remove o s) := by
  rw [World.remove, remove]
  refine .consult rfl fun object ho => ?_
  rw [detach_eq hf (World.has_of_object? (World.existing_eq_ok ho))]
  exact .ok () (t := { s with world := s.world.detach o })
    (hs.of_unplaced (World.unplaced_detach s.world o))

theorem changeFlag_agrees (o : ObjectId) (name : String) (change : FlagSet → Nat → FlagSet) :
    Agrees s ((s.world.changeFlag o name change).map fun w => ((), w))
      (changeFlag o name change s) := by
  have hbit : flagBit name s = .ok (s.world.flags.bit? name) s := by
    rw [flagBit, hs.flagBits]
  rw [changeFlag, bind_of_ok hbit, World.changeFlag]
  refine .consult rfl fun object _ => ?_
  rcases s.world.flags.bit? name with _ | bit
  · exact .ok () hs
  · refine .ok () (t := { s with world := s.world.modifyObject o _ }) (hs.withWorld ?_ rfl)
    exact indexed_modifyObject s.world o (fun _ => rfl) fun _ => rfl

theorem newTable_agrees (cells : List Value) :
    Agrees s ((s.world.newTable cells).map fun made => (made.2, made.1)) (newTable cells s) := by
  rw [World.newTable, newTable]
  refine .consult rfl fun index _ => ?_
  exact .ok _ (t := { s with world := { s.world with
    tables := s.world.tables ++ [cells.toArray] } }) (hs.withWorld rfl rfl)

theorem tableGet_agrees (t : TableId) (index : Int) :
    Agrees s ((s.world.tableGet t index).map fun value => (value, s.world))
      (tableGet t index s) := by
  rw [World.tableGet, tableGet]
  exact .consult rfl fun cells _ => .consult rfl fun i _ => .ok _ hs

theorem tablePut_agrees (t : TableId) (index : Int) (value : Value) :
    Agrees s ((s.world.tablePut t index value).map fun w => ((), w))
      (tablePut t index value s) := by
  rw [World.tablePut, tablePut]
  refine .consult rfl fun cells _ => .consult rfl fun i _ => ?_
  exact .ok () (t := { s with world := { s.world with
    tables := s.world.tables.set t.index (cells.setIfInBounds i value) } }) (hs.withWorld rfl rfl)

end

/-! ### Properties -/

theorem contains_insert {α : Type} (m : NameMap α) (name other : String) (value : α) :
    (m.insert name value).contains other = true ↔ other = name ∨ m.contains other = true := by
  rw [NameMap.contains, NameMap.get?_insert]
  split
  · rename_i heq
    exact ⟨fun _ => .inl heq, fun _ => rfl⟩
  · rename_i hne
    exact ⟨.inr, fun h => h.resolve_left hne⟩

/-- Writing entries one after another adds their names. -/
theorem contains_foldl_insert {α : Type} (entries : List (String × α)) (m : NameMap α)
    (name : String) :
    (entries.foldl (fun m e => m.insert e.1 e.2) m).contains name = true ↔
      m.contains name = true ∨ name ∈ entries.map (·.1) := by
  induction entries generalizing m with
  | nil => simp
  | cons entry entries ih =>
    rw [List.foldl_cons, ih, contains_insert, List.map_cons, List.mem_cons]
    tauto

theorem contains_ofList {α : Type} (entries : List (String × α)) (name : String) :
    (NameMap.ofList entries).contains name = true ↔ name ∈ entries.map (·.1) := by
  rw [NameMap.ofList, contains_foldl_insert]
  simp [NameMap.contains]

theorem isPropertyName_iff (w : World) (name : String) :
    w.isPropertyName name = true ↔ w.propertyDefaults.contains (canonical name) = true ∨
      ∃ o object, w.object? o = some object ∧
        object.properties.contains (canonical name) = true := by
  rw [World.isPropertyName, Bool.or_eq_true, List.any_eq_true]
  refine or_congr Iff.rfl ⟨?_, ?_⟩
  · rintro ⟨object, hmem, hcontains⟩
    obtain ⟨i, hi⟩ := List.mem_iff_getElem?.mp hmem
    exact ⟨⟨i⟩, object, hi, hcontains⟩
  · rintro ⟨o, object, hobject, hcontains⟩
    exact ⟨object, List.mem_of_getElem? hobject, hcontains⟩

/-- A property that an object is given becomes known, and no other. -/
theorem isPropertyName_putProperty {w : World} {o : ObjectId} (ho : w.Has o) (name : String)
    (value : Value) (other : String) :
    (w.modifyObject o fun object =>
      { object with properties := object.properties.insert (canonical name) value }
      ).isPropertyName other = true ↔
      canonical other = canonical name ∨ w.isPropertyName other = true := by
  rw [isPropertyName_iff, isPropertyName_iff]
  constructor
  · rintro (hdefault | ⟨x, object, hobject, hcontains⟩)
    · exact .inr (.inl hdefault)
    · rw [World.object?_modifyObject] at hobject
      split at hobject
      · obtain ⟨old, hold, rfl⟩ := Option.map_eq_some_iff.mp hobject
        rcases (contains_insert _ _ _ _).mp hcontains with heq | hcontains
        · exact .inl heq
        · exact .inr (.inr ⟨x, old, hold, hcontains⟩)
      · exact .inr (.inr ⟨x, object, hobject, hcontains⟩)
  · rintro (heq | hdefault | ⟨x, object, hobject, hcontains⟩)
    · obtain ⟨object, hobject⟩ := World.object?_of_has ho
      refine .inr ⟨o, { object with
        properties := object.properties.insert (canonical name) value }, ?_, ?_⟩
      · rw [World.object?_modifyObject, if_pos rfl, hobject]
        rfl
      · exact (contains_insert _ _ _ value).mpr (.inl heq)
    · exact .inl hdefault
    · by_cases hx : x = o
      · refine .inr ⟨x, { object with
          properties := object.properties.insert (canonical name) value }, ?_, ?_⟩
        · rw [World.object?_modifyObject, if_pos hx, hobject]
          rfl
        · exact (contains_insert _ _ _ value).mpr (.inr hcontains)
      · refine .inr ⟨x, object, ?_, hcontains⟩
        rw [World.object?_modifyObject, if_neg hx, hobject]

theorem putProperty_agrees {s : Store} (hs : s.Coherent) (o : ObjectId) (name : String)
    (value : Value) :
    Agrees s ((s.world.putProperty o name value).map fun w => ((), w))
      (putProperty o name value s) := by
  rcases ho : s.world.existing o with fault | object
  · rw [putProperty, changeObject, World.putProperty, ho, bind_of_error]
    · exact .error fault
    · exact bind_of_error (consult_of_error ho)
  · have hhas := World.has_of_object? (World.existing_eq_ok ho)
    rw [putProperty, bind_of_ok (changeObject_of_has hhas _), World.putProperty, ho]
    refine .ok () (t := ⟨s.world.modifyObject o _, s.names, s.flagBits,
      s.propertyNames.insert (canonical name)⟩) ⟨fun other => ?_, hs.flagBits, fun other => ?_⟩
    · have hnames : (s.world.modifyObject o fun object => { object with
          properties := object.properties.insert (canonical name) value }).names =
          s.world.names :=
        World.map_modifyObject _ s.world o fun _ => rfl
      rw [World.lookup?_eq_idxOf?, hnames, ← World.lookup?_eq_idxOf?]
      exact hs.names other
    · rw [isPropertyName_putProperty hhas, List.mem_insert_iff, hs.propertyNames]

/-! ### New flags and objects -/

/-- A name behind others is found in the last place. -/
theorem idxOf?_concat {names : List String} {last : String} (h : last ∉ names) (name : String) :
    (names ++ [last]).idxOf? name =
      if name = last then some names.length else names.idxOf? name := by
  rw [List.idxOf?, List.findIdx?_append]
  split
  · rename_i heq
    have hnone : names.idxOf? name = none := List.idxOf?_eq_none_iff.mpr (heq ▸ h)
    rw [List.idxOf?] at hnone
    rw [hnone]
    simp [heq]
  · rename_i hne
    simp [Ne.symm hne]

theorem declareFlag_agrees {s : Store} (hs : s.Coherent) (name : String) :
    ∃ t : Store, t.Coherent ∧ t.world = s.world.declareFlag name ∧
      declareFlag name s = .ok (s.world.flags.declare name).2 t := by
  have hbit : flagBit name s = .ok (s.world.flags.bit? name) s := by
    rw [flagBit, hs.flagBits]
  rw [declareFlag, bind_of_ok hbit, World.declareFlag, FlagVocabulary.declare]
  rcases hold : s.world.flags.bit? name with _ | bit
  · have hnew : canonical name ∉ s.world.flags.names := List.idxOf?_eq_none_iff.mp hold
    refine ⟨⟨{ s.world with flags := ⟨s.world.flags.names ++ [canonical name]⟩ }, s.names,
      s.flagBits.insert (canonical name) s.world.flags.size, s.propertyNames⟩,
      ⟨hs.names, fun other => ?_, hs.propertyNames⟩, rfl, rfl⟩
    rw [NameMap.get?_insert, FlagVocabulary.bit?, idxOf?_concat hnew, hs.flagBits]
    rfl
  · exact ⟨s, hs, rfl, rfl⟩

theorem declareFlags_agrees {s : Store} (hs : s.Coherent) (set : FlagSet) (names : List String) :
    let made := names.foldl (fun (v, s) name =>
      let (v, bit) := v.declare name
      (v, s.insert bit)) (s.world.flags, set)
    ∃ t : Store, t.Coherent ∧ t.world = { s.world with flags := made.1 } ∧
      declareFlags set names s = .ok made.2 t := by
  induction names generalizing set s with
  | nil => exact ⟨s, hs, rfl, rfl⟩
  | cons name names ih =>
    obtain ⟨t, ht, hworld, hdeclare⟩ := declareFlag_agrees hs name
    rw [declareFlags, bind_of_ok hdeclare]
    have hrest := ih ht (set.insert (s.world.flags.declare name).2)
    rw [hworld] at hrest
    exact hrest

theorem noteProperties_eq (entries : List (String × Value)) (properties : NameMap Value)
    (s : Store) :
    noteProperties properties entries s =
      .ok ((entries.map fun (p, value) => (canonical p, value)).foldl
          (fun m e => m.insert e.1 e.2) properties)
        { s with propertyNames :=
            entries.foldl (fun known e => known.insert (canonical e.1)) s.propertyNames } := by
  induction entries generalizing properties s with
  | nil => rfl
  | cons entry entries ih =>
    have hnote : noteProperty (canonical entry.1) s =
        .ok () { s with propertyNames := s.propertyNames.insert (canonical entry.1) } := rfl
    rw [noteProperties, bind_of_ok hnote, ih]
    rfl

theorem mem_foldl_insert (entries : List (String × Value)) (known : List String) (name : String) :
    name ∈ entries.foldl (fun known e => known.insert (canonical e.1)) known ↔
      name ∈ known ∨ name ∈ entries.map fun e => canonical e.1 := by
  induction entries generalizing known with
  | nil => simp
  | cons entry entries ih =>
    rw [List.foldl_cons, ih, List.mem_insert_iff, List.map_cons, List.mem_cons]
    tauto

/-- An object behind the others is found under its name, unless another is. -/
theorem lookup?_append {w : World} {object : GameObject} (hobject : object.name ∉ w.names)
    (name : String) :
    World.lookup? { w with objects := w.objects ++ [object] } name =
      if canonical name = object.name then some ⟨w.objects.length⟩ else w.lookup? name := by
  have hnames : World.names { w with objects := w.objects ++ [object] } =
      w.names ++ [object.name] := List.map_append
  have hlength : w.names.length = w.objects.length := List.length_map ..
  rw [World.lookup?_eq_idxOf?, hnames, idxOf?_concat hobject, hlength, World.lookup?_eq_idxOf?]
  split
  · rfl
  · rfl

theorem isPropertyName_append (w : World) (object : GameObject) (name : String) :
    World.isPropertyName { w with objects := w.objects ++ [object] } name = true ↔
      w.isPropertyName name = true ∨ object.properties.contains (canonical name) = true := by
  rw [World.isPropertyName, World.isPropertyName, List.any_append]
  simp [or_assoc]

theorem register_agrees {s : Store} (hs : s.Coherent) (spec : ObjectSpec) :
    Agrees s ((s.world.register spec).map fun made => (made.2, made.1)) (register spec s) := by
  have hindex := hs.names spec.name
  rcases hlookup : s.world.lookup? spec.name with _ | other
  · rw [hlookup] at hindex
    have hname : checkName (canonical spec.name) s = .ok () s := by
      rw [checkName, NameMap.contains, hindex]
      rfl
    rw [register, bind_of_ok hname, World.register, hlookup]
    refine .consult rfl fun index hfree => ?_
    obtain rfl := World.freeHandle_eq_ok hfree
    have hnew : canonical spec.name ∉ s.world.names := by
      rw [World.lookup?_eq_idxOf?, Option.map_eq_none_iff, List.idxOf?_eq_none_iff] at hlookup
      exact hlookup
    -- what is done to the flags keeps the store coherent, and leaves the objects to the end
    obtain ⟨⟨world, names, flagBits, known⟩, ht, hworld, hflags⟩ : ∃ t : Store, t.Coherent ∧
        t.world = { s.world with flags := (World.declareAll s.world.flags spec.flags).1 } ∧
        declareFlags .empty spec.flags s =
          .ok (World.declareAll s.world.flags spec.flags).2 t :=
      declareFlags_agrees hs .empty spec.flags
    rw [bind_of_ok hflags, bind_of_ok (noteProperties_eq _ _ _)]
    generalize World.declareAll s.world.flags spec.flags = made at hworld
    obtain ⟨flags, set⟩ := made
    dsimp only at hworld
    subst hworld
    have hcoherent : Coherent
        { world := { s.world with objects := s.world.objects ++ [spec.object set], flags := flags }
          names := names.insert (canonical spec.name) ⟨s.world.objects.length⟩
          flagBits := flagBits
          propertyNames :=
            spec.properties.foldl (fun known e => known.insert (canonical e.1)) known } := by
      refine ⟨fun name => ?_, ht.flagBits, fun name => ?_⟩
      · rw [NameMap.get?_insert, ht.names]
        have hobject : (spec.object set).name ∉ s.world.names := hnew
        exact (lookup?_append hobject name).symm
      · rw [mem_foldl_insert, ht.propertyNames]
        refine Iff.trans ?_ (isPropertyName_append _ _ name).symm
        show _ ↔ _ ∨ (NameMap.ofList _).contains _ = true
        rw [contains_ofList, List.map_map]
        rfl
    exact .ok _ hcoherent
  · rw [hlookup] at hindex
    have hname : checkName (canonical spec.name) s =
        .error (.duplicateObject (canonical spec.name)) s := by
      rw [checkName, NameMap.contains, hindex]
      rfl
    rw [register, bind_of_error hname, World.register, hlookup]
    exact .error _

/-! ### Every world has a store -/

/-- The index of some names, numbered from a given number on.  Of two that are the same the first
counts. -/
def nameIndex {α : Type} (handle : Nat → α) : Nat → List String → NameMap α
  | _, [] => .empty
  | i, name :: names => (nameIndex handle (i + 1) names).insert name (handle i)

theorem get?_nameIndex {α : Type} (handle : Nat → α) (names : List String) (i : Nat)
    (name : String) :
    (nameIndex handle i names).get? name =
      (names.idxOf? name).map fun k => handle (i + k) := by
  induction names generalizing i with
  | nil => rfl
  | cons first names ih =>
    rw [nameIndex, NameMap.get?_insert, ih, List.idxOf?_cons]
    by_cases heq : name = first
    · simp [heq]
    · have hcount : ∀ k, i + 1 + k = i + (k + 1) := fun k => by omega
      simp [heq, Ne.symm heq, Function.comp_def, hcount]

theorem mem_names_iff {α : Type} (m : NameMap α) (name : String) :
    name ∈ m.names ↔ m.contains name = true := by
  rw [NameMap.names, NameMap.contains, NameMap.get?]
  induction m.entries with
  | nil => simp [findEntry]
  | cons entry rest ih =>
    rw [List.map_cons, List.mem_cons, findEntry, ih]
    by_cases heq : name = entry.1
    · simp [heq]
    · simp [heq]

/-- The store that keeps a given world. -/
def ofWorld (w : World) : Store where
  world := w
  names := nameIndex ObjectId.mk 0 w.names
  flagBits := nameIndex id 0 w.flags.names
  propertyNames := w.propertyDefaults.names ++ w.objects.flatMap (·.properties.names)

theorem coherent_ofWorld (w : World) : (ofWorld w).Coherent where
  names name := by
    rw [ofWorld, get?_nameIndex, World.lookup?_eq_idxOf?]
    simp only [Nat.zero_add]
  flagBits name := by
    rw [ofWorld, get?_nameIndex, FlagVocabulary.bit?]
    simp only [Nat.zero_add, id_eq, Option.map_id']
  propertyNames name := by
    show canonical name ∈ w.propertyDefaults.names ++ w.objects.flatMap (·.properties.names) ↔ _
    rw [World.isPropertyName, Bool.or_eq_true, List.any_eq_true, List.mem_append, mem_names_iff,
      List.mem_flatMap]
    simp only [mem_names_iff]
    rfl

/-! ### Calls that fail -/

section

variable {s : Store} (hs : s.Coherent) (hf : s.world.Forest)
include hs hf

/-- Step by step a call does what it does at once. -/
theorem agrees (c : Call) : Agrees s (c.apply s.world) (c.inPlace s) := by
  cases c with
  | register spec => exact register_agrees hs spec
  | move o container => exact move_agrees hs hf o container
  | remove o => exact remove_agrees hs hf o
  | setFlag o name => exact changeFlag_agrees hs o name _
  | clearFlag o name => exact changeFlag_agrees hs o name _
  | putProperty o name value => exact putProperty_agrees hs o name value
  | newTable cells => exact newTable_agrees hs cells
  | tableGet t index => exact tableGet_agrees hs t index
  | tablePut t index value => exact tablePut_agrees hs t index value

/-- A call that fails leaves the store as it was. -/
theorem eq_of_inPlace_error {c : Call} {fault : Fault} {s' : Store}
    (h : c.inPlace s = .error fault s') : s' = s := by
  have hagrees := agrees hs hf c
  rw [h] at hagrees
  generalize c.apply s.world = e at hagrees
  cases hagrees
  rfl

end

/-- On a machine a call does what it does at once on its world. -/
theorem run_eq (c : Call) : c.run = Run.changeWorld fun w => (c.apply w).map (·.2) := by
  have hedit : ∀ f : World → Except Fault World, Run.changeWorld f =
      Run.changeWorld fun w => ((f w).map fun w' => ((), w')).map (·.2) := by
    intro f
    refine congrArg Run.changeWorld (funext fun w => ?_)
    rcases f w with fault | w'
    · rfl
    · rfl
  cases c with
  | register spec =>
    funext m
    show Run.changeWorld (fun w => (w.register spec).map (·.1)) m = _
    rw [Run.changeWorld, Run.changeWorld, Call.apply]
    rcases m.world.register spec with fault | ⟨w, o⟩
    · rfl
    · rfl
  | newTable cells =>
    funext m
    show (makeTable cells >>= fun _ => pure ()) m = _
    rw [Run.changeWorld, Call.apply]
    rcases hmade : m.world.newTable cells with fault | ⟨w, t⟩
    · have hrun : makeTable cells m = (.failed (.ofFault fault), m) := by rw [makeTable, hmade]
      rw [Run.bind_of_failed hrun]
      rfl
    · have hrun : makeTable cells m = (.done (.table t), { m with world := w }) := by
        rw [makeTable, hmade]
      rw [Run.bind_of_done hrun]
      rfl
  | tableGet t index =>
    funext m
    show (Run.ofExcept (m.world.tableGet t index) >>= fun _ => pure ()) m = _
    rw [Run.changeWorld, Call.apply]
    rcases m.world.tableGet t index with fault | value
    · rfl
    · rfl
  | move o container => exact hedit (·.move o container)
  | remove o => exact hedit (·.remove o)
  | setFlag o name => exact hedit (·.setFlag o name)
  | clearFlag o name => exact hedit (·.clearFlag o name)
  | putProperty o name value => exact hedit (·.putProperty o name value)
  | tablePut t index value => exact hedit (·.tablePut t index value)

/-- Every world that can come about can be kept in a store.  There a call that fails leaves the
world, the indexes of names and flags and the list of property names as they were; once a move or a
removal has passed its checks, none of its steps fails; a call has the effect that it has at once
on the world; and a machine on which such a call fails is left as it was. -/
theorem failed_call_unchanged {w : World} (hw : w.Reachable) :
    (∃ s : Store, s.world = w ∧ s.Coherent) ∧
    ∀ s : Store, s.world = w → s.Coherent →
      (∀ (c : Call) (fault : Fault) (s' : Store), c.inPlace s = .error fault s' → s' = s) ∧
      (∀ o container, checkMove o container s = .ok () s →
        ∃ s', relocate o container s = .ok () s') ∧
      (∀ o object, consult (·.existing o) s = .ok object s → ∃ s', detach o s = .ok () s') ∧
      (∀ c : Call, Agrees s (c.apply w) (c.inPlace s)) ∧
      ∀ (c : Call) (m m' : Machine) (f : Failure), m.world = w →
        c.run m = (.failed f, m') → m' = m := by
  refine ⟨⟨ofWorld w, rfl, coherent_ofWorld w⟩, ?_⟩
  rintro s rfl hs
  have hf := hw.forest
  refine ⟨fun c fault s' h => eq_of_inPlace_error hs hf h, fun o container h => ?_,
    fun o object h => ?_, agrees hs hf, fun c m m' f _ h => ?_⟩
  · rw [checkMove_eq] at h
    rcases hmove : s.world.move o container with fault | w
    · rw [hmove] at h
      cases h
    · obtain ⟨⟨ho, hc, -, -⟩, -⟩ := hf.move_eq_ok_iff.mp hmove
      exact ⟨_, relocate_eq hf ho hc⟩
  · rcases ho : s.world.existing o with fault | found
    · rw [consult_of_error ho] at h
      cases h
    · exact ⟨_, detach_eq hf (World.has_of_object? (World.existing_eq_ok ho))⟩
  · rw [run_eq, Run.changeWorld] at h
    split at h
    · cases h
    · cases h
      rfl

/-- A second lamp is refused before the flag it would bring is made known. -/
theorem failed_call_unchanged_lamp :
    ∃ s : Store, s.world.names = ["LAMP"] ∧
      (Call.register { ObjectSpec.named "lamp" with flags := ["ONBIT"] }).inPlace s =
        .error (.duplicateObject "LAMP") s := by
  have hlamp := World.Reachable.empty.change
    (.register (show World.empty.register (.named "LAMP") = .ok (_, ⟨0⟩) from rfl))
  obtain ⟨⟨s, hworld, hs⟩, hcalls⟩ := failed_call_unchanged hlamp
  obtain ⟨-, -, -, hagrees, -⟩ := hcalls s hworld hs
  have hsecond := hagrees (.register { ObjectSpec.named "lamp" with flags := ["ONBIT"] })
  refine ⟨s, by rw [hworld]; rfl, ?_⟩
  generalize Call.inPlace _ s = r at hsecond ⊢
  change Agrees s (.error (.duplicateObject "LAMP")) r at hsecond
  cases hsecond
  rfl

end Store

end TextAdventure
