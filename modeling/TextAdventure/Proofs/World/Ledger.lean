import Mathlib.Data.Set.Function
import TextAdventure.Proofs.World.History

/-!
Values as entries of a ledger.

Whatever keeps a value in a world, be it a global, a property of an object, the default of a
property or a cell of a table, keeps the last value that was written there.  A ledger says just
this: it has an entry for each thing that a value was written to, and no other structure.

* `World.Key`, `World.read` — what keeps a value, and which value it keeps;
* `Ledger`, `Ledger.writes` — the last value written to each key, and what a demand writes;
* `Ledger.Describes.obey` — what one demand does to a world it does to the ledger;
* `World.values_refine_ledger` — so it is for all demands together.

Design notes.  A key holds names in canonical spelling.  The three command slots are globals like
all others in the ledger; that the world keeps them apart is left out.
-/

namespace TextAdventure

namespace World

/-- What keeps a value. -/
inductive Key where
  | global (name : String)
  | property (o : ObjectId) (name : String)
  | default (name : String)
  | cell (t : TableId) (i : Nat)
  deriving DecidableEq

/-- The value that is kept under a key. -/
def read (w : World) : Key → Option Value
  | .global name =>
    match Slot.ofName? name with
    | some slot => some (w.slots.get slot)
    | none => w.globals.get? name
  | .property o name => (w.object? o).bind (·.properties.get? name)
  | .default name => w.propertyDefaults.get? name
  | .cell t i => (w.tables[t.index]?).bind (·[i]?)

end World

open World (Key Demand)

/-- What has been said about values: the names of the objects, the lengths of the tables, both in
the order in which they came, and the last value that was written to each key. -/
structure Ledger where
  objects : List String
  lengths : List Nat
  value : Key → Option Value

namespace Ledger

/-- The globals that are command slots. -/
def slotNames : List String := ["PRSA", "PRSO", "PRSI"]

/-- The ledger before any demand: the command slots are false. -/
def empty : Ledger where
  objects := []
  lengths := []
  value
    | .global name => if name ∈ slotNames then some (.bool false) else none
    | _ => none

/-- The last value that a list of properties gives a name, in any letter case. -/
def given (properties : List (String × Value)) (name : String) : Option Value :=
  (properties.reverse.find? fun p => canonical p.1 = name).map (·.2)

/-- Whether a table has a cell with a given index. -/
def hasCell (l : Ledger) (t : TableId) (index : Int) : Bool :=
  0 ≤ index ∧ index.toNat < l.lengths[t.index]?.getD 0

/-- Whether there is a new object after a demand for it: its name is new, and there is a handle
left. -/
def registers (l : Ledger) (spec : ObjectSpec) : Bool :=
  canonical spec.name ∉ l.objects ∧ l.objects.length < handleLimit

/-- Whether there is a handle left for a table. -/
def hasRoom (l : Ledger) : Bool := l.lengths.length < handleLimit

/-- The value that a demand writes to a key, if it writes one. -/
def writes (l : Ledger) : Demand → Key → Option Value
  | .call (.register spec), .property o name =>
    if l.registers spec ∧ o.index = l.objects.length then given spec.properties name else none
  | .call (.putProperty o name value), k =>
    if o.index < l.objects.length ∧ k = .property o (canonical name) then some value else none
  | .call (.newTable cells), .cell t i =>
    if l.hasRoom ∧ t.index = l.lengths.length then cells[i]? else none
  | .call (.tablePut t index value), k =>
    if l.hasCell t index ∧ k = .cell t index.toNat then some value else none
  | .setPropertyDefault name value, k => if k = .default (canonical name) then some value else none
  | .setGlobal name value, k => if k = .global (canonical name) then some value else none
  | .fillSlots slots, .global name =>
    if name = "PRSA" then some slots.action
    else if name = "PRSO" then some slots.direct
    else if name = "PRSI" then some slots.indirect
    else none
  | _, _ => none

/-- What a demand does to the ledger. -/
def obey (l : Ledger) (d : Demand) : Ledger where
  objects :=
    match d with
    | .call (.register spec) =>
      if l.registers spec then l.objects ++ [canonical spec.name] else l.objects
    | _ => l.objects
  lengths :=
    match d with
    | .call (.newTable cells) => if l.hasRoom then l.lengths ++ [cells.length] else l.lengths
    | _ => l.lengths
  value k := (l.writes d k).or (l.value k)

/-- The ledger after some demands. -/
def after (demands : List Demand) : Ledger := demands.foldl obey empty

end Ledger

/-! ### Maps and slots -/

/-- The global that stands for a slot. -/
def Slot.name : Slot → String
  | .action => "PRSA"
  | .direct => "PRSO"
  | .indirect => "PRSI"

theorem Slot.ofName?_eq_some_iff {name : String} {slot : Slot} :
    Slot.ofName? name = some slot ↔ name = slot.name := by
  constructor
  · intro h
    rw [Slot.ofName?] at h
    split at h
    · cases h
      assumption
    · split at h
      · cases h
        assumption
      · split at h
        · cases h
          assumption
        · cases h
  · rintro rfl
    cases slot with
    | action => rfl
    | direct => rfl
    | indirect => rfl

theorem Slot.ofName?_eq_none_iff {name : String} :
    Slot.ofName? name = none ↔ name ∉ Ledger.slotNames := by
  rw [Slot.ofName?, Ledger.slotNames]
  split
  · simp [*]
  · split
    · simp [*]
    · split
      · simp [*]
      · simp [*]

theorem get?_given (properties : List (String × Value)) (name : String) :
    (NameMap.ofList (properties.map fun (p, value) => (canonical p, value))).get? name =
      Ledger.given properties name := by
  rw [NameMap.get?_ofList, Ledger.given, ← List.map_reverse, List.find?_map, Option.map_map]
  rfl

/-- An entry is listed where it is found, since no name is there twice. -/
theorem NameMap.mem_toList_iff {α : Type} (m : NameMap α) {name : String} {value : α} :
    (name, value) ∈ m.toList ↔ m.get? name = some value := by
  obtain ⟨entries, hsorted⟩ := m
  show (name, value) ∈ entries ↔ findEntry name entries = some value
  constructor
  · intro hmem
    induction entries with
    | nil => cases hmem
    | cons entry rest ih =>
      obtain ⟨hfirst, hrest⟩ := List.pairwise_cons.mp hsorted
      rw [findEntry]
      rcases List.mem_cons.mp hmem with rfl | hlater
      · exact if_pos rfl
      · have hlt := hfirst _ hlater
        have hne : name ≠ entry.1 := by
          rintro rfl
          exact String.lt_irrefl _ hlt
        rw [if_neg hne, ih hrest hlater]
  · exact mem_of_findEntry

namespace World

/-! ### What a world keeps -/

/-- All there is about names and values in a world. -/
def valueView (w : World) :
    (List (String × NameMap Value) × NameMap Value) ×
      NameMap Value × List (Array Value) × CommandSlots :=
  (Store.indexed w, w.globals, w.tables, w.slots)

theorem valueView_of_unplaced {w w' : World} (h : w'.unplaced = w.unplaced) :
    w'.valueView = w.valueView := by
  have hbare (v : World) : v.unplaced.valueView = v.valueView := by
    have hbare : v.unplaced.unplaced = v.unplaced := by
      rw [unplaced, unplaced, List.map_map]
      rfl
    rw [valueView, valueView, Store.indexed_of_unplaced hbare]
    rfl
  rw [← hbare w', h, hbare]

theorem read_of_valueView {w w' : World} (h : w'.valueView = w.valueView) (k : Key) :
    w'.read k = w.read k := by
  cases k with
  | global name =>
    have hglobals : w'.globals = w.globals := congrArg (·.2.1) h
    have hslots : w'.slots = w.slots := congrArg (·.2.2.2) h
    rw [read, read, hglobals, hslots]
  | property o name =>
    have hlist := congrArg (fun view => (view.1.1[o.index]?).bind (·.2.get? name)) h
    simpa [valueView, Store.indexed, read, object?, Option.bind_map, Function.comp_def] using hlist
  | default name =>
    have hdefaults : w'.propertyDefaults = w.propertyDefaults := congrArg (·.1.2) h
    rw [read, read, hdefaults]
  | cell t i =>
    have htables : w'.tables = w.tables := congrArg (·.2.2.1) h
    rw [read, read, htables]

/-- The cells of a new table are its own. -/
theorem read_newTable (w : World) (cells : List Value) (t : TableId) (i : Nat) :
    World.read { w with tables := w.tables ++ [cells.toArray] } (.cell t i) =
      if t.index = w.tables.length then cells[i]? else w.read (.cell t i) := by
  show ((w.tables ++ [cells.toArray])[t.index]?).bind (·[i]?) = _
  rw [List.getElem?_append]
  split
  · rename_i hlt
    rw [if_neg (Nat.ne_of_lt hlt)]
    rfl
  · rename_i hge
    by_cases heq : t.index = w.tables.length
    · simp [heq]
    · have hbehind : [cells.toArray][t.index - w.tables.length]? = none :=
        List.getElem?_eq_none (by simp only [List.length_singleton]; omega)
      rw [if_neg heq, read, hbehind, List.getElem?_eq_none (Nat.le_of_not_lt hge)]

theorem read_tablePut {w w' : World} {t : TableId} {index : Int} {value : Value}
    (h : w.tablePut t index value = .ok w') (k : Key) :
    w'.read k = if k = .cell t index.toNat then some value else w.read k := by
  obtain ⟨cells, hcells, -, hlt, rfl⟩ := tablePut_eq_ok_iff.mp h
  have htable := (List.getElem?_eq_some_iff.mp hcells).1
  cases k with
  | cell u i =>
    show ((w.tables.set t.index (cells.setIfInBounds index.toNat value))[u.index]?).bind (·[i]?) = _
    rw [List.getElem?_set]
    by_cases hu : t.index = u.index
    · obtain rfl : t = u := by
        obtain ⟨t⟩ := t
        obtain ⟨u⟩ := u
        exact congrArg TableId.mk hu
      rw [if_pos rfl, if_pos htable, Option.bind_some, Array.getElem?_setIfInBounds]
      by_cases hi : index.toNat = i
      · subst hi
        simp [hlt]
      · rw [if_neg hi, if_neg fun heq => hi (by cases heq; rfl), read, hcells, Option.bind_some]
    · rw [if_neg hu, if_neg fun heq => hu (by cases heq; rfl)]
      rfl
  | _ => rfl

theorem read_putProperty {w w' : World} {o : ObjectId} {name : String} {value : Value}
    (h : w.putProperty o name value = .ok w') (ho : w.Has o) (k : Key) :
    w'.read k = if k = .property o (canonical name) then some value else w.read k := by
  rw [putProperty_eq_ok h]
  obtain ⟨object, hobject⟩ := object?_of_has ho
  cases k with
  | property x other =>
    rw [read, object?_modifyObject]
    by_cases hx : x = o
    · subst hx
      rw [if_pos rfl, hobject, Option.map_some, Option.bind_some, NameMap.get?_insert]
      by_cases hname : other = canonical name
      · simp [hname]
      · rw [if_neg hname, if_neg fun heq => hname (by cases heq; rfl), read, hobject]
        rfl
    · rw [if_neg hx, if_neg fun heq => hx (by cases heq; rfl)]
      rfl
  | _ => rfl

theorem read_setGlobal (w : World) (name : String) (value : Value) (k : Key) :
    (w.setGlobal name value).read k =
      if k = .global (canonical name) then some value else w.read k := by
  rw [setGlobal]
  cases k with
  | global other =>
    rcases hslot : Slot.ofName? (canonical name) with _ | slot
    · simp only [read]
      rcases hother : Slot.ofName? other with _ | otherSlot
      · simp
      · have hne : other ≠ canonical name := by
          rintro rfl
          rw [hslot] at hother
          cases hother
        simp [hne]
    · simp only [read]
      rcases hother : Slot.ofName? other with _ | otherSlot
      · have hne : other ≠ canonical name := by
          rintro rfl
          rw [hslot] at hother
          cases hother
        simp [hne]
      · simp only [CommandSlots.get_set, Key.global.injEq]
        by_cases heq : otherSlot = slot
        · subst heq
          rw [Slot.ofName?_eq_some_iff] at hother hslot
          rw [if_pos rfl, if_pos (hother.trans hslot.symm)]
        · have hne : other ≠ canonical name := by
            rintro rfl
            rw [hslot] at hother
            exact heq (Option.some.inj hother).symm
          rw [if_neg heq, if_neg hne]
  | _ =>
    split
    · rfl
    · rfl

/-- The properties of a new object are its own. -/
theorem read_registered (w : World) (spec : ObjectSpec) (o : ObjectId) (name : String) :
    (w.registered spec).read (.property o name) =
      if o.index = w.objects.length then Ledger.given spec.properties name
      else w.read (.property o name) := by
  rw [read, object?, registered, List.getElem?_append]
  split
  · rename_i hlt
    rw [if_neg (Nat.ne_of_lt hlt)]
    rfl
  · rename_i hge
    by_cases heq : o.index = w.objects.length
    · rw [if_pos heq, heq, Nat.sub_self]
      exact get?_given spec.properties name
    · rw [if_neg heq, List.getElem?_eq_none (by simp only [List.length_singleton]; omega), read,
        object?, List.getElem?_eq_none (Nat.le_of_not_lt hge)]

end World

/-! ### The ledger describes worlds -/

namespace Ledger

/-- What has been said about values is so, and the slots are not kept among the globals. -/
structure Describes (l : Ledger) (w : World) : Prop where
  objects : w.names = l.objects
  lengths : w.tables.map (·.size) = l.lengths
  value (k : Key) : w.read k = l.value k
  unlisted : ∀ name ∈ slotNames, w.globals.get? name = none

namespace Describes

variable {l : Ledger} {w w' : World}

theorem empty : Ledger.empty.Describes World.empty where
  objects := rfl
  lengths := rfl
  value k := by
    cases k with
    | global name =>
      show (match Slot.ofName? name with
        | some slot => some (CommandSlots.none.get slot)
        | none => none) = if name ∈ slotNames then some (.bool false) else none
      rcases hslot : Slot.ofName? name with _ | slot
      · rw [if_neg (Slot.ofName?_eq_none_iff.mp hslot)]
      · rw [if_pos]
        · cases slot with
          | action => rfl
          | direct => rfl
          | indirect => rfl
        · by_contra hnot
          rw [Slot.ofName?_eq_none_iff.mpr hnot] at hslot
          cases hslot
    | _ => rfl
  unlisted _ _ := rfl

/-- What does not concern names and values changes nothing in the ledger. -/
theorem congr (h : l.Describes w) (hview : w'.valueView = w.valueView) : l.Describes w' where
  objects := by
    have hlist := congrArg (fun view => view.1.1.map Prod.fst) hview
    rw [← h.objects]
    simpa [World.valueView, Store.indexed, World.names, Function.comp_def] using hlist
  lengths := (congrArg (fun view => view.2.2.1.map (·.size)) hview).trans h.lengths
  value k := (World.read_of_valueView hview k).trans (h.value k)
  unlisted name hname :=
    (congrArg (fun view => view.2.1.get? name) hview).trans (h.unlisted name hname)

theorem has_iff (h : l.Describes w) {o : ObjectId} : w.Has o ↔ o.index < l.objects.length := by
  rw [World.Has, ← World.length_names, h.objects]

theorem length_tables (h : l.Describes w) : w.tables.length = l.lengths.length := by
  rw [← h.lengths, List.length_map]

theorem hasCell_iff (h : l.Describes w) {t : TableId} {index : Int} :
    l.hasCell t index = true ↔
      ∃ cells, w.tables[t.index]? = some cells ∧ 0 ≤ index ∧ index.toNat < cells.size := by
  rw [hasCell, ← h.lengths, List.getElem?_map, decide_eq_true_iff]
  rcases w.tables[t.index]? with _ | cells
  · simp
  · simp

theorem registers_iff (h : l.Describes w) {spec : ObjectSpec} :
    l.registers spec = true ↔ canonical spec.name ∉ w.names ∧ w.names.length < handleLimit := by
  rw [registers, decide_eq_true_iff, h.objects]

theorem hasRoom_iff (h : l.Describes w) : l.hasRoom = true ↔ w.tables.length < handleLimit := by
  rw [hasRoom, decide_eq_true_iff, h.length_tables]

theorem register (h : l.Describes w) (spec : ObjectSpec) :
    (l.obey (.call (.register spec))).Describes (w.obey (.call (.register spec))) := by
  rw [World.obey_register]
  by_cases hnew : l.registers spec = true
  · rw [if_pos (h.registers_iff.mp hnew)]
    refine ⟨?_, h.lengths, fun k => ?_, h.unlisted⟩
    · show (w.registered spec).names = if l.registers spec then _ else _
      rw [if_pos hnew, ← h.objects]
      exact List.map_append
    · cases k with
      | property o name =>
        have hlength : w.objects.length = l.objects.length := by
          rw [← World.length_names, h.objects]
        show _ = (if l.registers spec ∧ o.index = l.objects.length then
          given spec.properties name else none).or (l.value (.property o name))
        rw [World.read_registered, ← h.value, hlength]
        by_cases ho : o.index = l.objects.length
        · have hnone : w.read (.property o name) = none := by
            rw [World.read, World.object?, List.getElem?_eq_none (by omega)]
            rfl
          rw [if_pos ho, if_pos ⟨hnew, ho⟩, hnone, Option.or_none]
        · rw [if_neg ho, if_neg fun hc => ho hc.2, Option.none_or]
      | global name => exact h.value (.global name)
      | default name => exact h.value (.default name)
      | cell t i => exact h.value (.cell t i)
  · rw [if_neg (h.registers_iff.not.mp hnew)]
    refine ⟨?_, h.lengths, fun k => ?_, h.unlisted⟩
    · show w.names = if l.registers spec then _ else _
      rw [if_neg hnew, h.objects]
    · rw [h.value]
      cases k with
      | property o name => simp [obey, writes, hnew]
      | _ => rfl

/-- A demand that writes one value under one key, or none. -/
theorem write (h : l.Describes w) {d : Demand} {k : Key} {value : Value}
    (hobjects : w'.names = (l.obey d).objects)
    (hlengths : w'.tables.map (·.size) = (l.obey d).lengths)
    (hread : ∀ other, w'.read other = if other = k then some value else w.read other)
    (hwrites : ∀ other, l.writes d other = if other = k then some value else none)
    (hunlisted : ∀ name ∈ slotNames, w'.globals.get? name = none) :
    (l.obey d).Describes w' := by
  refine ⟨hobjects, hlengths, fun other => ?_, hunlisted⟩
  show _ = (l.writes d other).or (l.value other)
  rw [hread, hwrites, h.value]
  split
  · rfl
  · rfl

theorem putProperty (h : l.Describes w) (o : ObjectId) (name : String) (value : Value) :
    (l.obey (.call (.putProperty o name value))).Describes
      (w.obey (.call (.putProperty o name value))) := by
  obtain ⟨fault, hfault, heq⟩ | hok :=
    World.obey_edit (c := .putProperty o name value) (f := w.putProperty o name value) rfl
  · have hno : ¬ o.index < l.objects.length := by
      rw [← h.has_iff]
      intro hhas
      obtain ⟨object, hobject⟩ := World.existing_of_has hhas
      rw [World.putProperty, hobject] at hfault
      cases hfault
    rw [heq]
    refine ⟨h.objects, h.lengths, fun k => ?_, h.unlisted⟩
    simp [obey, writes, hno, h.value]
  · have hhas : w.Has o := by
      rw [World.putProperty] at hok
      rcases ho : w.existing o with fault | object
      · rw [ho] at hok
        cases hok
      · exact World.has_of_object? (World.existing_eq_ok ho)
    have hread := World.read_putProperty hok hhas
    have hplain := World.putProperty_eq_ok hok
    refine h.write ?_ ?_ hread (fun other => ?_) ?_
    · rw [hplain, World.names_modifyObject]
      · exact h.objects
      · exact fun _ => rfl
    · rw [hplain]
      exact h.lengths
    · simp [writes, h.has_iff.mp hhas]
    · rw [hplain]
      exact h.unlisted

theorem tablePut (h : l.Describes w) (t : TableId) (index : Int) (value : Value) :
    (l.obey (.call (.tablePut t index value))).Describes
      (w.obey (.call (.tablePut t index value))) := by
  obtain ⟨fault, hfault, heq⟩ | hok :=
    World.obey_edit (c := .tablePut t index value) (f := w.tablePut t index value) rfl
  · have hno : l.hasCell t index = false := by
      rw [Bool.eq_false_iff, ne_eq, h.hasCell_iff]
      rintro ⟨cells, hcells, hnonneg, hlt⟩
      cases hfault.symm.trans (World.tablePut_eq_ok_iff.mpr ⟨cells, hcells, hnonneg, hlt, rfl⟩)
    rw [heq]
    refine ⟨h.objects, h.lengths, fun k => ?_, h.unlisted⟩
    simp [obey, writes, hno, h.value]
  · have hread := World.read_tablePut hok
    obtain ⟨cells, hcells, hnonneg, hlt, hplain⟩ := World.tablePut_eq_ok_iff.mp hok
    refine h.write ?_ ?_ hread (fun other => ?_) ?_
    · rw [hplain]
      exact h.objects
    · rw [World.sizes_tablePut hok]
      exact h.lengths
    · simp [writes, h.hasCell_iff.mpr ⟨cells, hcells, hnonneg, hlt⟩]
    · rw [hplain]
      exact h.unlisted

theorem newTable (h : l.Describes w) (cells : List Value) :
    (l.obey (.call (.newTable cells))).Describes (w.obey (.call (.newTable cells))) := by
  rw [World.obey_newTable]
  by_cases hroom : l.hasRoom = true
  · rw [if_pos (h.hasRoom_iff.mp hroom)]
    refine ⟨h.objects, ?_, fun k => ?_, h.unlisted⟩
    · show (w.tables ++ [cells.toArray]).map (·.size) = if l.hasRoom then _ else _
      rw [if_pos hroom, List.map_append, h.lengths]
      rfl
    · cases k with
      | cell t i =>
        show _ = (if l.hasRoom ∧ t.index = l.lengths.length then cells[i]? else none).or
          (l.value (.cell t i))
        rw [World.read_newTable, h.length_tables, ← h.value]
        by_cases ht : t.index = l.lengths.length
        · have hnone : w.read (.cell t i) = none := by
            rw [World.read, List.getElem?_eq_none (by rw [h.length_tables]; omega)]
            rfl
          rw [if_pos ht, if_pos ⟨hroom, ht⟩, hnone, Option.or_none]
        · rw [if_neg ht, if_neg fun hc => ht hc.2, Option.none_or]
      | global name => exact h.value (.global name)
      | property o name => exact h.value (.property o name)
      | default name => exact h.value (.default name)
  · rw [if_neg (h.hasRoom_iff.not.mp hroom)]
    refine ⟨h.objects, ?_, fun k => ?_, h.unlisted⟩
    · show w.tables.map (·.size) = if l.hasRoom then _ else _
      rw [if_neg hroom, h.lengths]
    · rw [h.value]
      cases k with
      | cell t i => simp [obey, writes, hroom]
      | _ => rfl

theorem setGlobal (h : l.Describes w) (name : String) (value : Value) :
    (l.obey (.setGlobal name value)).Describes (w.obey (.setGlobal name value)) := by
  refine h.write ?_ ?_ (w.read_setGlobal name value) (fun _ => rfl) fun slotName hslotName => ?_
  · rw [World.obey, World.names, World.objects_setGlobal]
    exact h.objects
  · rw [World.obey, World.tables_setGlobal]
    exact h.lengths
  · rw [World.obey, World.setGlobal]
    rcases hslot : Slot.ofName? (canonical name) with _ | slot
    · have hne : slotName ≠ canonical name := by
        rintro rfl
        exact Slot.ofName?_eq_none_iff.mp hslot hslotName
      show (w.globals.insert (canonical name) value).get? slotName = none
      rw [NameMap.get?_insert, if_neg hne, h.unlisted slotName hslotName]
    · exact h.unlisted slotName hslotName

theorem setPropertyDefault (h : l.Describes w) (name : String) (value : Value) :
    (l.obey (.setPropertyDefault name value)).Describes
      (w.obey (.setPropertyDefault name value)) := by
  refine h.write h.objects h.lengths (fun other => ?_) (fun _ => rfl) h.unlisted
  cases other with
  | default other =>
    show (w.propertyDefaults.insert (canonical name) value).get? other = _
    simp only [NameMap.get?_insert, Key.default.injEq]
    rfl
  | _ => rfl

theorem fillSlots (h : l.Describes w) (slots : CommandSlots) :
    (l.obey (.fillSlots slots)).Describes (w.obey (.fillSlots slots)) where
  objects := h.objects
  lengths := h.lengths
  value k := by
    cases k with
    | global name =>
      have hold := h.value (.global name)
      simp only [World.read, Slot.ofName?, World.obey, obey, writes] at hold ⊢
      split_ifs at hold ⊢
      · rfl
      · rfl
      · rfl
      · exact hold
    | property o name => exact h.value (.property o name)
    | default name => exact h.value (.default name)
    | cell t i => exact h.value (.cell t i)
  unlisted := h.unlisted

/-- What one demand does to a world it does to the ledger. -/
theorem obey (h : l.Describes w) (d : Demand) : (l.obey d).Describes (w.obey d) := by
  have hkeeps (hview : (w.obey d).valueView = w.valueView)
      (hobjects : (l.obey d).objects = l.objects)
      (hlengths : (l.obey d).lengths = l.lengths) (hwrites : ∀ k, l.writes d k = none) :
      (l.obey d).Describes (w.obey d) := by
    have hsame := h.congr hview
    refine ⟨hobjects ▸ hsame.objects, hlengths ▸ hsame.lengths, fun k => ?_, hsame.unlisted⟩
    show _ = (l.writes d k).or (l.value k)
    rw [hwrites, hsame.value, Option.none_or]
  have hflag {o : ObjectId} {name : String} {change : FlagSet → Nat → FlagSet} {v : World}
      (hok : w.changeFlag o name change = .ok v) : v.valueView = w.valueView := by
    obtain ⟨-, ⟨-, rfl⟩ | ⟨bit, -, rfl⟩⟩ := World.changeFlag_eq_ok_iff.mp hok
    · rfl
    · rw [World.valueView, Store.indexed_modifyObject]
      · rfl
      · exact fun _ => rfl
      · exact fun _ => rfl
  cases d with
  | call c =>
    cases c with
    | register spec => exact h.register spec
    | putProperty o name value => exact h.putProperty o name value
    | newTable cells => exact h.newTable cells
    | tablePut t index value => exact h.tablePut t index value
    | move o container =>
      exact hkeeps (World.valueView_of_unplaced (w.unplaced_obey_move o container)) rfl rfl
        fun _ => rfl
    | remove o =>
      exact hkeeps (World.valueView_of_unplaced (w.unplaced_obey_remove o)) rfl rfl fun _ => rfl
    | setFlag o name =>
      refine hkeeps ?_ rfl rfl fun _ => rfl
      obtain ⟨fault, -, heq⟩ | hok :=
        World.obey_edit (c := .setFlag o name) (f := w.setFlag o name) rfl
      · rw [heq]
      · exact hflag hok
    | clearFlag o name =>
      refine hkeeps ?_ rfl rfl fun _ => rfl
      obtain ⟨fault, -, heq⟩ | hok :=
        World.obey_edit (c := .clearFlag o name) (f := w.clearFlag o name) rfl
      · rw [heq]
      · exact hflag hok
    | tableGet t index =>
      refine hkeeps ?_ rfl rfl fun _ => rfl
      rw [World.obey_tableGet]
  | declareFlag name => exact hkeeps rfl rfl rfl fun _ => rfl
  | setPropertyDefault name value => exact h.setPropertyDefault name value
  | setGlobal name value => exact h.setGlobal name value
  | fillSlots slots => exact h.fillSlots slots

/-- The ledger after some demands describes the world after them. -/
theorem after (demands : List Demand) : (Ledger.after demands).Describes (World.after demands) := by
  refine List.foldl_rel (r := Describes) empty ?_
  intro d _ l w h
  exact h.obey d

end Describes

end Ledger

namespace World

/-! ### Values and names by the ledger -/

section

variable {l : Ledger} {w : World} (h : l.Describes w)
include h

/-- The globals that are listed are those in the ledger, without the slots. -/
theorem mem_globals_iff {name : String} {value : Value} :
    (name, value) ∈ w.globals.toList ↔
      name ∉ Ledger.slotNames ∧ l.value (.global name) = some value := by
  rw [NameMap.mem_toList_iff, ← h.value]
  by_cases hslot : name ∈ Ledger.slotNames
  · simp [h.unlisted name hslot, hslot]
  · have hnone := Slot.ofName?_eq_none_iff.mpr hslot
    simp [read, hnone, hslot]

theorem property_eq (o : ObjectId) (name : String) :
    w.property o name = ((l.value (.property o (canonical name))).or
      (l.value (.default (canonical name)))).getD (.bool false) := by
  rw [← h.value, ← h.value, property]
  show _ = (((w.object? o).bind (·.ownProperty? name)).or _).getD _
  rcases (w.object? o).bind (·.ownProperty? name) with _ | value
  · rfl
  · rfl

theorem isPropertyName_iff_value (name : String) :
    w.isPropertyName name = true ↔
      (∃ o, (l.value (.property o (canonical name))).isSome = true) ∨
        (l.value (.default (canonical name))).isSome = true := by
  rw [Store.isPropertyName_iff, or_comm, ← h.value]
  refine or_congr (exists_congr fun o => ?_) Iff.rfl
  rw [← h.value, read]
  rcases w.object? o with _ | object
  · simp
  · simp [NameMap.contains]

theorem lookup?_eq_some_iff (hw : w.WellNamed) (name : String) (o : ObjectId) :
    w.lookup? name = some o ↔ l.objects[o.index]? = some (canonical name) := by
  rw [lookup?_eq_idxOf?, ← h.objects, Option.map_eq_some_iff]
  constructor
  · rintro ⟨i, hi, rfl⟩
    obtain ⟨hlt, hname, -⟩ := List.idxOf?_eq_some_iff.mp hi
    exact List.getElem?_eq_some_iff.mpr ⟨hlt, hname⟩
  · intro hname
    obtain ⟨hlt, hget⟩ := List.getElem?_eq_some_iff.mp hname
    refine ⟨o.index, List.idxOf?_eq_some_iff.mpr ⟨hlt, hget, fun j hj heq => ?_⟩, rfl⟩
    have hsame := hw.nodup.getElem_inj_iff.mp (heq.trans hget.symm)
    omega

/-- Finding objects by name pairs the names one to one with the handles. -/
theorem bijOn_lookup? (hw : w.WellNamed) :
    Set.BijOn w.lookup? {name | name ∈ l.objects} (Set.image some {o | w.Has o}) := by
  have hcanonical : ∀ name ∈ l.objects, canonical name = name := h.objects ▸ hw.canonical_eq
  refine ⟨fun name hname => ?_, fun name hname other hother hsame => ?_, ?_⟩
  · obtain ⟨i, hi⟩ := List.mem_iff_getElem?.mp hname
    rw [← hcanonical name hname] at hi
    have hfound := (lookup?_eq_some_iff h hw name ⟨i⟩).mpr hi
    exact ⟨⟨i⟩, h.has_iff.mpr (List.getElem?_eq_some_iff.mp hi).1, hfound.symm⟩
  · obtain ⟨i, hi⟩ := List.mem_iff_getElem?.mp hname
    rw [← hcanonical name hname] at hi
    have hfound := (lookup?_eq_some_iff h hw name ⟨i⟩).mpr hi
    have hfound' := (lookup?_eq_some_iff h hw other ⟨i⟩).mp (hsame ▸ hfound)
    rw [← hcanonical name hname, ← hcanonical other hother]
    exact Option.some.inj (hi.symm.trans hfound')
  · rintro _ ⟨o, ho, rfl⟩
    have hlt := h.has_iff.mp ho
    have hmem : l.objects[o.index] ∈ l.objects := List.getElem_mem hlt
    refine ⟨_, hmem, (lookup?_eq_some_iff h hw _ o).mpr ?_⟩
    rw [hcanonical _ hmem]
    exact List.getElem?_eq_getElem hlt

theorem tableGet_eq_ok_iff (t : TableId) (index : Int) (value : Value) :
    w.tableGet t index = .ok value ↔ 0 ≤ index ∧ l.value (.cell t index.toNat) = some value := by
  rw [← h.value, read, tableGet, table]
  rcases w.tables[t.index]? with _ | cells
  · constructor
    · intro hget
      cases hget
    · rintro ⟨-, hcell⟩
      cases hcell
  · simp only [bind, Except.bind, cellIndex, Option.bind_some]
    by_cases hrange : 0 ≤ index ∧ index.toNat < cells.size
    · rw [if_pos hrange, Array.getElem?_eq_getElem hrange.2]
      simp [hrange, pure, Except.pure, Array.getD]
    · rw [if_neg hrange]
      constructor
      · intro hget
        cases hget
      · rintro ⟨hnonneg, hcell⟩
        exact absurd ⟨hnonneg, (Array.getElem?_eq_some_iff.mp hcell).1⟩ hrange

theorem exists_tableGet_iff (t : TableId) (index : Int) :
    (∃ value, w.tableGet t index = .ok value) ↔ l.hasCell t index = true := by
  rw [h.hasCell_iff]
  simp only [tableGet_eq_ok_iff h, ← h.value, read]
  constructor
  · rintro ⟨value, hnonneg, hcell⟩
    obtain ⟨cells, hcells, hvalue⟩ := Option.bind_eq_some_iff.mp hcell
    exact ⟨cells, hcells, hnonneg, (Array.getElem?_eq_some_iff.mp hvalue).1⟩
  · rintro ⟨cells, hcells, hnonneg, hlt⟩
    exact ⟨cells[index.toNat], hnonneg, by rw [hcells]; exact Array.getElem?_eq_getElem hlt⟩

end

/-! ### What is demanded later -/

theorem prefix_lengths_after (demands more : List Demand) :
    (Ledger.after demands).lengths <+: (Ledger.after (demands ++ more)).lengths := by
  have hstep (l : Ledger) (d : Demand) : l.lengths <+: (l.obey d).lengths := by
    simp only [Ledger.obey]
    split
    · split
      · exact List.prefix_append _ _
      · exact List.prefix_rfl
    · exact List.prefix_rfl
  rw [Ledger.after, Ledger.after, List.foldl_append]
  refine List.foldlRecOn (motive := fun l => (Ledger.after demands).lengths <+: l.lengths) more
    Ledger.obey List.prefix_rfl ?_
  intro l hl d _
  exact hl.trans (hstep l d)

theorem length_table_eq {l l' : Ledger} {w w' : World} (h : l.Describes w) (h' : l'.Describes w')
    (hgrows : l.lengths <+: l'.lengths) {t : TableId} {cells : Array Value}
    (hcells : w.table t = .ok cells) :
    ∃ later, w'.table t = .ok later ∧ later.size = cells.size := by
  have hfound : w.tables[t.index]? = some cells := by
    rw [table] at hcells
    split at hcells
    · cases hcells
      assumption
    · cases hcells
  have hlength : l.lengths[t.index]? = some cells.size := by
    rw [← h.lengths, List.getElem?_map, hfound]
    rfl
  have hlater : l'.lengths[t.index]? = some cells.size := by
    obtain ⟨rest, heq⟩ := hgrows
    rw [← heq, List.getElem?_append_left (List.getElem?_eq_some_iff.mp hlength).1, hlength]
  rw [← h'.lengths, List.getElem?_map] at hlater
  obtain ⟨later, hfound', hsize⟩ := Option.map_eq_some_iff.mp hlater
  refine ⟨later, ?_, hsize⟩
  rw [table, hfound']

/-- The key that a demand for one write is about. -/
def Demand.key? : Demand → Option Key
  | .call (.putProperty o name _) => some (.property o (canonical name))
  | .call (.tablePut t index _) => some (.cell t index.toNat)
  | .setPropertyDefault name _ => some (.default (canonical name))
  | .setGlobal name _ => some (.global (canonical name))
  | _ => none

theorem writes_eq_none_of_ne {d : Demand} {k other : Key} (hd : d.key? = some k) (hne : other ≠ k)
    (l : Ledger) : l.writes d other = none := by
  cases d with
  | call c =>
    cases c with
    | putProperty o name value =>
      cases hd
      exact if_neg fun hc => hne hc.2
    | tablePut t index value =>
      cases hd
      exact if_neg fun hc => hne hc.2
    | _ => cases hd
  | setPropertyDefault name value =>
    cases hd
    exact if_neg hne
  | setGlobal name value =>
    cases hd
    exact if_neg hne
  | _ => cases hd

/-- The values of a world are entries of a ledger.  Every world that can come about comes about by
demands, and after any demands
* a global has the value last written to it, the command slots among them, which are not listed;
* a property has the value last written to it on the object, else the last default, else false; and
  it is known as a property exactly when there is one of these;
* names are paired one to one with the handles of the objects, and stay so whatever comes later;
* a table keeps its length, and where it has a cell, the cell has the value last written to it;
* what a demand writes to a key is read there next, and what it does not write stays as it was; so
  a write to one key leaves all others alone;
* and a store that is changed in place comes to the same world, its indexes of names and flags and
  its list of property names in step with it. -/
theorem values_refine_ledger :
    (∀ w : World, w.Reachable → ∃ demands, after demands = w) ∧
    ∀ demands more : List Demand,
      (∀ name, (after demands).global? name =
        (Ledger.after demands).value (.global (canonical name))) ∧
      (∀ name value, (name, value) ∈ (after demands).globals.toList ↔
        name ∉ ["PRSA", "PRSO", "PRSI"] ∧
          (Ledger.after demands).value (.global name) = some value) ∧
      (∀ o name, (after demands).property o name =
        (((Ledger.after demands).value (.property o (canonical name))).or
          ((Ledger.after demands).value (.default (canonical name)))).getD (.bool false)) ∧
      (∀ name, (after demands).isPropertyName name = true ↔
        (∃ o, ((Ledger.after demands).value (.property o (canonical name))).isSome = true) ∨
          ((Ledger.after demands).value (.default (canonical name))).isSome = true) ∧
      (∀ name o, (after demands).lookup? name = some o ↔
        (Ledger.after demands).objects[o.index]? = some (canonical name)) ∧
      Set.BijOn (after demands).lookup? {name | name ∈ (Ledger.after demands).objects}
        (Set.image some {o | o.index < (after demands).objects.length}) ∧
      (∀ name o, (after demands).lookup? name = some o →
        (after (demands ++ more)).lookup? name = some o) ∧
      (∀ t cells, (after demands).table t = .ok cells →
        ∃ later, (after (demands ++ more)).table t = .ok later ∧ later.size = cells.size) ∧
      (∀ t index, (∃ value, (after demands).tableGet t index = .ok value) ↔
        (Ledger.after demands).hasCell t index = true) ∧
      (∀ t index value, (after demands).tableGet t index = .ok value ↔
        0 ≤ index ∧ (Ledger.after demands).value (.cell t index.toNat) = some value) ∧
      (∀ d k, (after (demands ++ [d])).read k =
        ((Ledger.after demands).writes d k).or ((after demands).read k)) ∧
      (∀ d k, d.key? = some k → ∀ other, other ≠ k →
        (after (demands ++ [d])).read other = (after demands).read other) ∧
      (Store.after demands).world = after demands ∧ (Store.after demands).Coherent := by
  refine ⟨fun w hw => hw.exists_demands, fun demands more => ?_⟩
  have h := Ledger.Describes.after demands
  have hnamed := (reachable_after demands).wellNamed
  have hnext (d : Demand) (k : Key) : (after (demands ++ [d])).read k =
      ((Ledger.after demands).writes d k).or ((after demands).read k) := by
    rw [after_append, h.value]
    exact (h.obey d).value k
  refine ⟨fun name => h.value (.global (canonical name)), fun name value => mem_globals_iff h,
    property_eq h, isPropertyName_iff_value h, lookup?_eq_some_iff h hnamed,
    bijOn_lookup? h hnamed, fun name o ho => (evolves_after demands more).lookup?_eq ho,
    fun t cells hcells => ?_, exists_tableGet_iff h, tableGet_eq_ok_iff h, hnext,
    fun d k hd other hne => ?_, Store.after_spec demands⟩
  · exact length_table_eq h (Ledger.Describes.after (demands ++ more))
      (prefix_lengths_after demands more) hcells
  · rw [hnext, writes_eq_none_of_ne hd hne, Option.none_or]

/-- A lamp of size 3 among things of size 5, a slot that is filled under its name as a global, and
a table whose second cell is written. -/
theorem values_refine_ledger_lamp :
    let demands : List Demand := [
      .setPropertyDefault "Size" (.int 5),
      .call (.register { ObjectSpec.named "lamp" with properties := [("SIZE", .int 3)] }),
      .call (.register (ObjectSpec.named "sword")),
      .fillSlots ⟨.atom "TAKE", .object ⟨0⟩, .bool false⟩,
      .setGlobal "prsi" (.object ⟨1⟩),
      .call (.newTable [.int 7, .int 8]),
      .call (.tablePut ⟨0⟩ 1 (.int 9))]
    (after demands).property ⟨0⟩ "size" = .int 3 ∧
    (after demands).property ⟨1⟩ "size" = .int 5 ∧
    (after demands).global? "Prsi" = some (.object ⟨1⟩) ∧
    (after demands).tableGet ⟨0⟩ 1 = .ok (.int 9) ∧
    (after (demands ++ [.call (.tablePut ⟨0⟩ 0 (.int 6))])).read (.cell ⟨0⟩ 1) =
      (after demands).read (.cell ⟨0⟩ 1) ∧
    (Store.after demands).world = after demands := by
  intro demands
  obtain ⟨hglobal, -, hproperty, -, -, -, -, -, -, hcell, -, hother, hstore⟩ :=
    values_refine_ledger.2 demands []
  refine ⟨?_, ?_, ?_, ?_, ?_, ?_⟩
  · rw [hproperty]
    rfl
  · rw [hproperty]
    rfl
  · rw [hglobal]
    rfl
  · rw [hcell]
    exact ⟨by decide, rfl⟩
  · exact hother _ (.cell ⟨0⟩ 0) rfl _ (by decide)
  · exact hstore.1

end World

end TextAdventure
