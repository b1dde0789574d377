import TextAdventure.Proofs.Program.Logic

/-!
Handles in range.

Objects and tables are numbered and never go away, so a handle is in range when its number is
below the number of those there are.  A world is sound when its objects form a forest and every
value stored in it holds handles in range only.

* `Extent` — how many objects and tables there are;
* `Value.InRange` — every handle in a value is in range, at any depth;
* `World.Sound`, `Frame.InRange` — so it is with everything that a world and a frame store;
* `World.Edit.settles` — a change that a program asks for keeps a world sound, and is refused only
  for a fault of its own.

Design notes.  What is in range stays in range as the extent grows, so nothing has to be said about
which changes make it grow.
-/

namespace TextAdventure

/-- How many objects and how many tables there are. -/
structure Extent where
  objects : Nat
  tables : Nat

instance : LE Extent := ⟨fun e e' => e.objects ≤ e'.objects ∧ e.tables ≤ e'.tables⟩

theorem Extent.le_refl (e : Extent) : e ≤ e := ⟨Nat.le_refl _, Nat.le_refl _⟩

theorem Extent.le_trans {e₁ e₂ e₃ : Extent} (h : e₁ ≤ e₂) (h' : e₂ ≤ e₃) : e₁ ≤ e₃ :=
  ⟨h.1.trans h'.1, h.2.trans h'.2⟩

theorem Extent.le_of_eq {e e' : Extent} (h : e = e') : e ≤ e' := h ▸ e.le_refl

/-- How many objects and tables a world has. -/
def World.extent (w : World) : Extent := ⟨w.objects.length, w.tables.length⟩

/-! ### Values -/

mutual

/-- Every handle in a value is in range, at any depth. -/
def Value.InRange (e : Extent) : Value → Prop
  | .object o => o.index < e.objects
  | .table t => t.index < e.tables
  | .list items => Value.InRangeAll e items
  | _ => True

/-- Every handle in some values is in range. -/
def Value.InRangeAll (e : Extent) : List Value → Prop
  | [] => True
  | value :: values => value.InRange e ∧ Value.InRangeAll e values

end

theorem Value.inRangeAll_iff {e : Extent} {values : List Value} :
    Value.InRangeAll e values ↔ ∀ v ∈ values, v.InRange e := by
  induction values with
  | nil => exact ⟨fun _ => List.forall_mem_nil _, fun _ => trivial⟩
  | cons value values ih => rw [Value.InRangeAll, ih, List.forall_mem_cons]

theorem Value.inRange_list {e : Extent} {values : List Value} :
    (Value.list values).InRange e ↔ ∀ v ∈ values, v.InRange e := by
  rw [Value.InRange]
  exact Value.inRangeAll_iff

theorem Value.inRange_of_isPlain {e : Extent} {v : Value} (h : v.isPlain = true) :
    v.InRange e := by
  cases v with
  | object o => cases h
  | table t => cases h
  | list values => cases h
  | _ => exact trivial

mutual

theorem Value.InRange.mono {e e' : Extent} (h : e ≤ e') : ∀ {v : Value}, v.InRange e → v.InRange e'
  | .object _, hv => Nat.lt_of_lt_of_le hv h.1
  | .table _, hv => Nat.lt_of_lt_of_le hv h.2
  | .list _, hv => Value.InRangeAll.mono h hv
  | .bool _, _ | .int _, _ | .float _, _ | .string _, _ | .atom _, _ | .char _, _
  | .routine _, _ => trivial

theorem Value.InRangeAll.mono {e e' : Extent} (h : e ≤ e') :
    ∀ {values : List Value}, Value.InRangeAll e values → Value.InRangeAll e' values
  | [], _ => trivial
  | _ :: _, hv => ⟨Value.InRange.mono h hv.1, Value.InRangeAll.mono h hv.2⟩

end

/-! ### Maps -/

/-- Everything that a map holds has a property. -/
def NameMap.All {α : Type} (p : α → Prop) (m : NameMap α) : Prop := ∀ e ∈ m.entries, p e.2

namespace NameMap.All

variable {α : Type} {p q : α → Prop} {m : NameMap α}

theorem empty : (NameMap.empty : NameMap α).All p := fun _ h => nomatch h

theorem mono (h : m.All p) (hpq : ∀ a, p a → q a) : m.All q := fun e he => hpq e.2 (h e he)

theorem insert (h : m.All p) (name : String) {a : α} (ha : p a) : (m.insert name a).All p := by
  intro e he
  rcases mem_insertEntry he with rfl | he
  · exact ha
  · exact h e he

theorem get? (h : m.All p) {name : String} {a : α} (ha : m.get? name = some a) : p a :=
  h (name, a) (mem_of_findEntry ha)

theorem ofList {entries : List (String × α)} (h : ∀ e ∈ entries, p e.2) :
    (NameMap.ofList entries).All p := by
  have hfold : ∀ (entries : List (String × α)) (m : NameMap α), m.All p → (∀ e ∈ entries, p e.2) →
      (entries.foldl (fun m e => m.insert e.1 e.2) m).All p := by
    intro entries
    induction entries with
    | nil => exact fun _ hm _ => hm
    | cons entry entries ih =>
      intro m hm hall
      obtain ⟨hentry, hrest⟩ := List.forall_mem_cons.mp hall
      exact ih _ (hm.insert entry.1 hentry) hrest
  exact hfold entries .empty .empty h

end NameMap.All

/-! ### Frames -/

/-- Every variable of a scope holds handles in range only. -/
def Scope.InRange (e : Extent) (scope : Scope) : Prop := scope.All fun b => b.value.InRange e

/-- Every variable of a frame holds handles in range only. -/
structure Frame.InRange (e : Extent) (f : Frame) : Prop where
  outer : Scope.InRange e f.outer
  inner : ∀ scope ∈ f.inner, Scope.InRange e scope

namespace Frame.InRange

variable {e e' : Extent} {f : Frame}

theorem topLevel : Frame.topLevel.InRange e := ⟨.empty, fun _ h => nomatch h⟩

theorem forRoutine (name : String) : (Frame.forRoutine name).InRange e :=
  ⟨.empty, fun _ h => nomatch h⟩

theorem mono (h : f.InRange e) (hle : e ≤ e') : f.InRange e' where
  outer := NameMap.All.mono h.outer fun _ => .mono hle
  inner scope hs := NameMap.All.mono (h.inner scope hs) fun _ => .mono hle

theorem bind (h : f.InRange e) (name : String) {value : Value} (hv : value.InRange e)
    (assigned : Bool) : (f.bind name value assigned).InRange e := by
  rcases f with ⟨routine, outer, inner, depth⟩
  rcases inner with _ | ⟨scope, scopes⟩
  · exact ⟨NameMap.All.insert h.outer _ hv, h.inner⟩
  · obtain ⟨hscope, hscopes⟩ := List.forall_mem_cons.mp h.inner
    exact ⟨h.outer, List.forall_mem_cons.mpr ⟨NameMap.All.insert hscope _ hv, hscopes⟩⟩

theorem replaceBinding {scopes written : List Scope} {name : String} {b : Binding}
    (h : ∀ scope ∈ scopes, Scope.InRange e scope) (hb : b.value.InRange e)
    (hwritten : Frame.replaceBinding name b scopes = some written) :
    ∀ scope ∈ written, Scope.InRange e scope := by
  induction scopes generalizing written with
  | nil => cases hwritten
  | cons scope scopes ih =>
    obtain ⟨hscope, hscopes⟩ := List.forall_mem_cons.mp h
    rw [Frame.replaceBinding] at hwritten
    split at hwritten
    · cases hwritten
      exact List.forall_mem_cons.mpr ⟨NameMap.All.insert hscope name hb, hscopes⟩
    · obtain ⟨rest, hrest, rfl⟩ := Option.map_eq_some_iff.mp hwritten
      exact List.forall_mem_cons.mpr ⟨hscope, ih hscopes hrest⟩

theorem assign (h : f.InRange e) (name : String) {value : Value} (hv : value.InRange e) :
    (f.assign name value).InRange e := by
  rw [Frame.assign]
  split
  · rename_i scopes hwritten
    exact ⟨h.outer, replaceBinding h.inner hv hwritten⟩
  · exact ⟨NameMap.All.insert h.outer _ hv, h.inner⟩

theorem openBlock (h : f.InRange e) : f.openBlock.InRange e :=
  ⟨h.outer, List.forall_mem_cons.mpr ⟨.empty, h.inner⟩⟩

theorem closeBlock (h : f.InRange e) : f.closeBlock.InRange e :=
  ⟨h.outer, fun scope hs => h.inner scope (List.mem_of_mem_tail hs)⟩

theorem findBinding {scopes : List Scope} (h : ∀ scope ∈ scopes, Scope.InRange e scope)
    {name : String} {b : Binding} (hb : Frame.findBinding name scopes = some b) :
    b.value.InRange e := by
  induction scopes with
  | nil => cases hb
  | cons scope scopes ih =>
    obtain ⟨hscope, hscopes⟩ := List.forall_mem_cons.mp h
    rw [Frame.findBinding] at hb
    split at hb
    · rename_i found hfound
      cases hb
      exact NameMap.All.get? hscope hfound
    · exact ih hscopes hb

theorem get? (h : f.InRange e) {name : String} {v : Value} (hv : f.get? name = some v) :
    v.InRange e := by
  obtain ⟨b, hb, rfl⟩ := Option.map_eq_some_iff.mp hv
  refine findBinding (fun scope hs => ?_) hb
  rcases List.mem_append.mp hs with hs | hs
  · exact h.inner scope hs
  · rw [List.mem_singleton.mp hs]
    exact h.outer

end Frame.InRange

/-! ### Worlds -/

/-- Every value that a world stores holds handles in range only. -/
structure World.InRange (e : Extent) (w : World) : Prop where
  properties : ∀ object ∈ w.objects, object.properties.All (·.InRange e)
  globals : w.globals.All (·.InRange e)
  defaults : w.propertyDefaults.All (·.InRange e)
  cells : ∀ table ∈ w.tables, ∀ v ∈ table.toList, v.InRange e
  slots : ∀ slot, (w.slots.get slot).InRange e

/-- The objects of a world form a forest, and every value stored in it holds handles in range
only. -/
structure World.Sound (w : World) : Prop where
  forest : w.Forest
  inRange : w.InRange w.extent

theorem World.InRange.mono {e e' : Extent} {w : World} (h : w.InRange e) (hle : e ≤ e') :
    w.InRange e' where
  properties object ho := (h.properties object ho).mono fun _ => .mono hle
  globals := h.globals.mono fun _ => .mono hle
  defaults := h.defaults.mono fun _ => .mono hle
  cells table ht v hv := (h.cells table ht v hv).mono hle
  slots slot := (h.slots slot).mono hle

theorem mem_modify {α : Type} {l : List α} {i : Nat} {change : α → α} {x : α}
    (h : x ∈ l.modify i change) : x ∈ l ∨ ∃ y ∈ l, x = change y := by
  obtain ⟨j, hj⟩ := List.mem_iff_getElem?.mp h
  rw [List.getElem?_modify] at hj
  obtain ⟨y, hy, rfl⟩ := Option.map_eq_some_iff.mp hj
  have hmem := List.mem_of_getElem? hy
  split
  · exact .inr ⟨y, hmem, rfl⟩
  · exact .inl hmem

/-- A change of one object keeps a world in range if it keeps the object's properties so. -/
theorem World.InRange.modifyObject {e : Extent} {w : World} (h : w.InRange e) (o : ObjectId)
    {change : GameObject → GameObject} (hchange : ∀ object,
      object.properties.All (·.InRange e) → (change object).properties.All (·.InRange e)) :
    (w.modifyObject o change).InRange e where
  properties object hobject := by
    rcases mem_modify hobject with hobject | ⟨before, hbefore, rfl⟩
    · exact h.properties object hobject
    · exact hchange before (h.properties before hbefore)
  globals := h.globals
  defaults := h.defaults
  cells := h.cells
  slots := h.slots

theorem CommandSlots.get_set (s : CommandSlots) (slot other : Slot) (value : Value) :
    (s.set slot value).get other = if other = slot then value else s.get other := by
  cases slot <;> cases other <;> rfl

namespace World

theorem extent_modifyObject (w : World) (o : ObjectId) (change : GameObject → GameObject) :
    (w.modifyObject o change).extent = w.extent := by
  rw [extent, extent, modifyObject, List.length_modify]

theorem extent_detach (w : World) (o : ObjectId) : (w.detach o).extent = w.extent := by
  rw [detach]
  split
  · rfl
  · rw [extent_modifyObject, extent_modifyObject]

theorem extent_attach (w : World) (o container : ObjectId) :
    (w.attach o container).extent = w.extent := by
  rw [attach, extent_modifyObject, extent_modifyObject]

theorem InRange.detach {e : Extent} {w : World} (h : w.InRange e) (o : ObjectId) :
    (w.detach o).InRange e := by
  rw [World.detach]
  split
  · exact h
  · refine InRange.modifyObject (InRange.modifyObject h o ?_) _ ?_
    · exact fun _ hp => hp
    · exact fun _ hp => hp

theorem InRange.attach {e : Extent} {w : World} (h : w.InRange e) (o container : ObjectId) :
    (w.attach o container).InRange e := by
  refine InRange.modifyObject (InRange.modifyObject h container ?_) o ?_
  · exact fun _ hp => hp
  · exact fun _ hp => hp

theorem existing_of_has {w : World} {o : ObjectId} (ho : w.Has o) :
    ∃ object, w.existing o = .ok object := by
  obtain ⟨object, hobject⟩ := object?_of_has ho
  exact ⟨object, by rw [existing, hobject]⟩

theorem existing_settles {w : World} {o : ObjectId} (ho : w.Has o) :
    Settles (fun _ => True) (w.existing o) := by
  obtain ⟨object, hobject⟩ := existing_of_has ho
  rw [hobject]
  exact trivial

/-- The only thing that stops a move of one object into another is that it would make a cycle. -/
theorem move_eq_error {w : World} {o container : ObjectId} (ho : w.Has o)
    (hc : w.Has container) {fault : Fault} (h : w.move o container = .error fault) :
    fault = .cycle (w.objectName o) (w.objectName container) := by
  obtain ⟨object, hobject⟩ := existing_of_has ho
  obtain ⟨target, htarget⟩ := existing_of_has hc
  rw [move, hobject, htarget] at h
  by_cases hcycle : o = container ∨ w.isAncestor o container
  · simp only [bind, Except.bind, if_pos hcycle] at h
    cases h
    rfl
  · simp only [bind, Except.bind, if_neg hcycle] at h
    cases h

/-- A world is sound and has all the objects and tables of an earlier one. -/
structure SoundAfter (w w' : World) : Prop where
  sound : w'.Sound
  extent : w.extent ≤ w'.extent

theorem SoundAfter.of_inRange {w w' : World} (hf : w'.Forest) (he : w'.extent = w.extent)
    (h : w'.InRange w.extent) : w.SoundAfter w' :=
  ⟨⟨hf, he ▸ h⟩, Extent.le_of_eq he.symm⟩

end World

/-! ### Changes that programs ask for -/

namespace World.Sound

variable {w : World}

theorem empty : World.empty.Sound where
  forest := .empty
  inRange :=
    { properties := fun _ h => nomatch h
      globals := .empty
      defaults := .empty
      cells := fun _ h => nomatch h
      slots := fun slot => by cases slot <;> exact trivial }

theorem changeFlag (h : w.Sound) {o : ObjectId} (ho : w.Has o) (name : String)
    (change : FlagSet → Nat → FlagSet) : Settles w.SoundAfter (w.changeFlag o name change) := by
  refine (existing_settles ho).bind fun _ _ => ?_
  split
  · rename_i bit _
    exact .of_inRange (h.forest.modifyObject o (fun _ => rfl) fun _ => rfl)
      (extent_modifyObject w o _) (h.inRange.modifyObject o fun _ hp => hp)
  · exact ⟨h, w.extent.le_refl⟩

theorem putProperty (h : w.Sound) {o : ObjectId} (ho : w.Has o) (name : String) {value : Value}
    (hv : value.InRange w.extent) : Settles w.SoundAfter (w.putProperty o name value) := by
  refine (existing_settles ho).bind fun _ _ => ?_
  exact .of_inRange (h.forest.modifyObject o (fun _ => rfl) fun _ => rfl)
    (extent_modifyObject w o _) (h.inRange.modifyObject o fun _ hp => hp.insert _ hv)

theorem detach (h : w.Sound) (o : ObjectId) : w.SoundAfter (w.detach o) :=
  .of_inRange (h.forest.detach o) (extent_detach w o) (h.inRange.detach o)

theorem move (h : w.Sound) {o container : ObjectId} (ho : w.Has o) (hc : w.Has container) :
    Settles w.SoundAfter (w.move o container) := by
  rcases hm : w.move o container with fault | w'
  · rw [move_eq_error ho hc hm]
    rfl
  · obtain ⟨-, -, -, -, rfl⟩ := move_eq_ok hm
    refine .of_inRange (h.forest.move hm) ?_ ((h.inRange.detach o).attach o container)
    rw [extent_attach, extent_detach]

theorem remove (h : w.Sound) {o : ObjectId} (ho : w.Has o) : Settles w.SoundAfter (w.remove o) :=
  (existing_settles ho).bind fun _ _ => h.detach o

theorem table {t : TableId} (ht : t.index < w.tables.length) :
    ∃ cells ∈ w.tables, w.table t = .ok cells := by
  refine ⟨w.tables[t.index], List.getElem_mem ht, ?_⟩
  rw [World.table, List.getElem?_eq_getElem ht]

theorem cellIndex_settles (index : Int) (length : Nat) :
    Settles (· < length) (cellIndex index length) := by
  rw [cellIndex]
  split
  · rename_i h
    exact h.2
  · exact rfl

theorem tableGet (h : w.Sound) {t : TableId} (ht : t.index < w.tables.length) (index : Int) :
    Settles (·.InRange w.extent) (w.tableGet t index) := by
  obtain ⟨cells, hcells, htable⟩ := table ht
  rw [World.tableGet, htable]
  refine (cellIndex_settles index cells.size).bind fun i hi => ?_
  show (cells.getD i (.bool false)).InRange w.extent
  rw [Array.getD_eq_getD_getElem?, Array.getElem?_eq_getElem hi]
  exact h.inRange.cells cells hcells _ (Array.getElem_mem_toList hi)

theorem tablePut (h : w.Sound) {t : TableId} (ht : t.index < w.tables.length) (index : Int)
    {value : Value} (hv : value.InRange w.extent) :
    Settles w.SoundAfter (w.tablePut t index value) := by
  obtain ⟨cells, hcells, htable⟩ := table ht
  rw [World.tablePut, htable]
  refine (cellIndex_settles index cells.size).bind fun i _ => ?_
  refine .of_inRange (h.forest.of_objects rfl) ?_ ?_
  · rw [extent, extent, List.length_set]
  · refine ⟨h.inRange.properties, h.inRange.globals, h.inRange.defaults, ?_, h.inRange.slots⟩
    intro table htable v hv'
    rcases List.mem_or_eq_of_mem_set htable with htable | rfl
    · exact h.inRange.cells table htable v hv'
    · rw [Array.toList_setIfInBounds] at hv'
      rcases List.mem_or_eq_of_mem_set hv' with hv' | rfl
      · exact h.inRange.cells cells hcells v hv'
      · exact hv

theorem setSlots (h : w.Sound) {slots : CommandSlots}
    (hslots : ∀ slot, (slots.get slot).InRange w.extent) :
    w.SoundAfter { w with slots := slots } :=
  .of_inRange (h.forest.of_objects rfl) rfl
    ⟨h.inRange.properties, h.inRange.globals, h.inRange.defaults, h.inRange.cells, hslots⟩

theorem setGlobal (h : w.Sound) (name : String) {value : Value} (hv : value.InRange w.extent) :
    w.SoundAfter (w.setGlobal name value) := by
  rw [World.setGlobal]
  split
  · rename_i slot _
    refine h.setSlots fun other => ?_
    rw [CommandSlots.get_set]
    split
    · exact hv
    · exact h.inRange.slots other
  · exact .of_inRange (h.forest.of_objects rfl) rfl
      ⟨h.inRange.properties, h.inRange.globals.insert _ hv, h.inRange.defaults, h.inRange.cells,
        h.inRange.slots⟩

theorem setPropertyDefault (h : w.Sound) (name : String) {value : Value}
    (hv : value.InRange w.extent) : w.SoundAfter (w.setPropertyDefault name value) :=
  .of_inRange (h.forest.of_objects rfl) rfl
    ⟨h.inRange.properties, h.inRange.globals, h.inRange.defaults.insert _ hv, h.inRange.cells,
      h.inRange.slots⟩

theorem declareFlag (h : w.Sound) (name : String) : w.SoundAfter (w.declareFlag name) :=
  .of_inRange (h.forest.of_objects rfl) rfl
    ⟨h.inRange.properties, h.inRange.globals, h.inRange.defaults, h.inRange.cells,
      h.inRange.slots⟩

theorem newTable (h : w.Sound) {cells : List Value} (hcells : ∀ v ∈ cells, v.InRange w.extent)
    {w' : World} {t : TableId} (hw : w.newTable cells = .ok (w', t)) : w.SoundAfter w' := by
  obtain ⟨-, rfl, -⟩ := newTable_eq_ok_iff.mp hw
  have hle : w.extent ≤ World.extent { w with tables := w.tables ++ [cells.toArray] } := by
    refine ⟨Nat.le_refl _, ?_⟩
    show w.tables.length ≤ (w.tables ++ [cells.toArray]).length
    rw [List.length_append]
    exact Nat.le_add_right _ _
  have hold := h.inRange.mono hle
  refine ⟨⟨h.forest.of_objects rfl, ⟨hold.properties, hold.globals, hold.defaults, ?_,
    hold.slots⟩⟩, hle⟩
  intro table htable v hv
  rcases List.mem_append.mp htable with htable | htable
  · exact hold.cells table htable v hv
  · rw [List.mem_singleton.mp htable] at hv
    exact (hcells v hv).mono hle

theorem register (h : w.Sound) {spec : ObjectSpec}
    (hspec : ∀ p ∈ spec.properties, p.2.InRange w.extent) {w' : World} {o : ObjectId}
    (hr : w.register spec = .ok (w', o)) : w.SoundAfter w' := by
  have hforest := h.forest.change (.register hr)
  obtain ⟨-, -, rfl, -⟩ := register_eq_ok_iff.mp hr
  have hle : w.extent ≤ ⟨w.objects.length + 1, w.tables.length⟩ :=
    ⟨Nat.le_succ _, Nat.le_refl _⟩
  have hextent : ∀ object flags,
      World.extent { w with objects := w.objects ++ [object], flags := flags } =
        ⟨w.objects.length + 1, w.tables.length⟩ := by
    intro object flags
    rw [extent, List.length_append]
    rfl
  have hold := h.inRange.mono hle
  refine ⟨⟨hforest, ?_⟩, ?_⟩
  · rw [hextent]
    refine ⟨fun object hobject => ?_, hold.globals, hold.defaults, hold.cells, hold.slots⟩
    rcases List.mem_append.mp hobject with hobject | hobject
    · exact hold.properties object hobject
    · rw [List.mem_singleton.mp hobject]
      refine .ofList fun e he => ?_
      obtain ⟨p, hp, rfl⟩ := List.mem_map.mp he
      exact (hspec p hp).mono hle
  · rw [hextent]
    exact hle

end World.Sound

/-- A change that a program asks for, of what is in range, keeps a world sound; and if it is
refused, then for a fault of its own. -/
theorem World.Edit.settles {w : World} {f : World → Except Fault World}
    (hf : World.Edit (·.InRange w.extent) f) (h : w.Sound) : Settles w.SoundAfter (f w) := by
  cases hf with
  | setFlag ho name => exact h.changeFlag ho name _
  | clearFlag ho name => exact h.changeFlag ho name _
  | putProperty ho name hv => exact h.putProperty ho name hv
  | move ho hc => exact h.move ho hc
  | remove ho => exact h.remove ho
  | tablePut ht index hv => exact h.tablePut ht index hv

end TextAdventure
