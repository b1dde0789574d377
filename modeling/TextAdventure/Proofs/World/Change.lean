import TextAdventure.Proofs.World.Forest

/-!
The ways in which a world changes.

* `ProgramChange` — one change that a running program can make;
* `Change` — one change of any kind, those made while a game is set up included;
* `Forest.change` — every change keeps the forest.

Design notes.  A world only ever changes by these steps, whatever is run, so an invariant of
worlds is shown once for each step here and holds after every run.
-/

namespace TextAdventure.World

/-- One change that a program can make. -/
inductive ProgramChange : World → World → Prop
  | setFlag {w w' : World} {o : ObjectId} {name : String} (h : w.setFlag o name = .ok w') :
      ProgramChange w w'
  | clearFlag {w w' : World} {o : ObjectId} {name : String} (h : w.clearFlag o name = .ok w') :
      ProgramChange w w'
  | putProperty {w w' : World} {o : ObjectId} {name : String} {value : Value}
      (h : w.putProperty o name value = .ok w') : ProgramChange w w'
  | move {w w' : World} {o container : ObjectId} (h : w.move o container = .ok w') :
      ProgramChange w w'
  | remove {w w' : World} {o : ObjectId} (h : w.remove o = .ok w') : ProgramChange w w'
  | setGlobal (w : World) (name : String) (value : Value) :
      ProgramChange w (w.setGlobal name value)
  | newTable {w w' : World} {cells : List Value} {t : TableId}
      (h : w.newTable cells = .ok (w', t)) : ProgramChange w w'
  | tablePut {w w' : World} {t : TableId} {index : Int} {value : Value}
      (h : w.tablePut t index value = .ok w') : ProgramChange w w'

/-- One change of any kind. -/
inductive Change : World → World → Prop
  | program {w w' : World} (h : ProgramChange w w') : Change w w'
  | register {w w' : World} {spec : ObjectSpec} {o : ObjectId}
      (h : w.register spec = .ok (w', o)) : Change w w'
  | declareFlag (w : World) (name : String) : Change w (w.declareFlag name)
  | setPropertyDefault (w : World) (name : String) (value : Value) :
      Change w (w.setPropertyDefault name value)
  | fillSlots (w : World) (slots : CommandSlots) : Change w { w with slots := slots }

/-! ### What the operations that can fail do when they succeed -/

theorem changeFlag_eq_ok {w w' : World} {o : ObjectId} {name : String}
    {change : FlagSet → Nat → FlagSet} (h : w.changeFlag o name change = .ok w') :
    w' = w ∨ ∃ bit, w' = w.modifyObject o fun object =>
      { object with flags := change object.flags bit } := by
  rw [changeFlag] at h
  rcases ho : w.existing o with _ | object
  · rw [ho] at h
    cases h
  · rw [ho] at h
    simp only [bind, Except.bind] at h
    split at h
    · rename_i bit _
      cases h
      exact .inr ⟨bit, rfl⟩
    · cases h
      exact .inl rfl

theorem putProperty_eq_ok {w w' : World} {o : ObjectId} {name : String} {value : Value}
    (h : w.putProperty o name value = .ok w') :
    w' = w.modifyObject o fun object =>
      { object with properties := object.properties.insert (canonical name) value } := by
  rw [putProperty] at h
  rcases ho : w.existing o with _ | object
  · rw [ho] at h
    cases h
  · rw [ho] at h
    cases h
    rfl

theorem tablePut_eq_ok {w w' : World} {t : TableId} {index : Int} {value : Value}
    (h : w.tablePut t index value = .ok w') : ∃ tables, w' = { w with tables := tables } := by
  rw [tablePut] at h
  rcases ht : w.table t with _ | cells
  · rw [ht] at h
    cases h
  rcases hi : cellIndex index cells.size with _ | i
  · rw [ht] at h
    simp only [bind, Except.bind, hi] at h
    cases h
  · rw [ht] at h
    simp only [bind, Except.bind, hi] at h
    cases h
    exact ⟨_, rfl⟩

theorem freeHandle_of_lt {used : Nat} (h : used < handleLimit) (kind : String) :
    freeHandle kind used = .ok used :=
  if_pos h

theorem freeHandle_of_not_lt {used : Nat} (h : ¬ used < handleLimit) (kind : String) :
    freeHandle kind used = .error (.outOfHandles kind) :=
  if_neg h

theorem freeHandle_eq_ok {kind : String} {used index : Nat} (h : freeHandle kind used = .ok index) :
    index = used := by
  rw [freeHandle] at h
  split at h
  · cases h
    rfl
  · cases h

/-- A new table comes behind the others, as long as there is a handle for it. -/
theorem newTable_eq_ok_iff {w w' : World} {cells : List Value} {t : TableId} :
    w.newTable cells = .ok (w', t) ↔ w.tables.length < handleLimit ∧
      w' = { w with tables := w.tables ++ [cells.toArray] } ∧ t = ⟨w.tables.length⟩ := by
  rw [newTable]
  by_cases hfree : w.tables.length < handleLimit
  · rw [freeHandle_of_lt hfree]
    refine ⟨fun h => ?_, fun h => by rw [h.2.1, h.2.2]; rfl⟩
    cases h
    exact ⟨hfree, rfl, rfl⟩
  · rw [freeHandle_of_not_lt hfree]
    exact ⟨nofun, fun h => absurd h.1 hfree⟩

/-- A table is refused only where there is no handle left for it. -/
theorem newTable_eq_error {w : World} {cells : List Value} {fault : Fault}
    (h : w.newTable cells = .error fault) :
    fault = .outOfHandles "tables" ∧ handleLimit ≤ w.tables.length := by
  rw [newTable] at h
  by_cases hfree : w.tables.length < handleLimit
  · rw [freeHandle_of_lt hfree] at h
    cases h
  · rw [freeHandle_of_not_lt hfree] at h
    cases h
    exact ⟨rfl, Nat.le_of_not_lt hfree⟩

/-- A new object comes behind the others, as long as there is a handle for it, under a name that
none of them has.  It has no place in the tree, and its flags are known. -/
theorem register_eq_ok_iff {w w' : World} {spec : ObjectSpec} {o : ObjectId} :
    w.register spec = .ok (w', o) ↔
      w.lookup? spec.name = none ∧ w.objects.length < handleLimit ∧
      w' = { w with
        objects := w.objects ++ [spec.object (declareAll w.flags spec.flags).2]
        flags := (declareAll w.flags spec.flags).1 } ∧
      o = ⟨w.objects.length⟩ := by
  rw [register]
  rcases w.lookup? spec.name with _ | other
  · dsimp only
    by_cases hfree : w.objects.length < handleLimit
    · rw [freeHandle_of_lt hfree]
      refine ⟨fun h => ?_, fun h => by rw [h.2.2.1, h.2.2.2]; rfl⟩
      cases h
      exact ⟨rfl, hfree, rfl, rfl⟩
    · rw [freeHandle_of_not_lt hfree]
      exact ⟨nofun, fun h => absurd h.2.1 hfree⟩
  · exact ⟨nofun, fun h => nomatch h.1⟩

/-! ### Every change keeps the forest -/

theorem Forest.empty : Forest World.empty where
  nodup _ := List.nodup_nil
  mem_children _ _ := ⟨nofun, nofun⟩
  acyclic _ h := by
    obtain ⟨k, hk⟩ := climb_of_ancestor h
    cases hk

theorem Forest.of_objects {w w' : World} (hf : Forest w) (h : w'.objects = w.objects) :
    Forest w' := by
  have hobject : ∀ x, w'.object? x = w.object? x := by
    intro x
    rw [object?, object?, h]
  refine hf.congr (fun x => ?_) fun x => ?_
  · rw [parent?, parent?, hobject]
  · rw [children_eq, children_eq, hobject]

theorem Forest.modifyObject {w : World} (hf : Forest w) (o : ObjectId)
    {change : GameObject → GameObject}
    (hparent : ∀ object, (change object).parent = object.parent)
    (hchildren : ∀ object, (change object).children = object.children) :
    Forest (w.modifyObject o change) :=
  hf.congr (fun x => parent?_modifyObject w o x change hparent)
    fun x => children_modifyObject w o x change hchildren

theorem Forest.changeFlag {w w' : World} (hf : Forest w) {o : ObjectId} {name : String}
    {change : FlagSet → Nat → FlagSet} (h : w.changeFlag o name change = .ok w') :
    Forest w' := by
  rcases changeFlag_eq_ok h with rfl | ⟨bit, rfl⟩
  · exact hf
  · exact hf.modifyObject o (fun _ => rfl) fun _ => rfl

/-- An object behind all others with neither parent nor children adds no link. -/
theorem Forest.append {w w' : World} (hf : Forest w) {object : GameObject}
    (hparent : object.parent = none) (hchildren : object.children = [])
    (h : w'.objects = w.objects ++ [object]) : Forest w' := by
  have hobject : ∀ x, w'.object? x = w.object? x ∨
      w.object? x = none ∧ w'.object? x = some object := by
    intro x
    rw [object?, object?, h, List.getElem?_append]
    split
    · exact .inl rfl
    · rename_i hlt
      rw [List.getElem?_eq_none (Nat.le_of_not_lt hlt)]
      rcases x.index - w.objects.length with _ | k
      · exact .inr ⟨rfl, rfl⟩
      · exact .inl rfl
  refine hf.congr (fun x => ?_) fun x => ?_
  · rw [parent?, parent?]
    rcases hobject x with heq | ⟨hnone, hsome⟩
    · rw [heq]
    · rw [hnone, hsome]
      exact hparent
  · rw [children_eq, children_eq]
    rcases hobject x with heq | ⟨hnone, hsome⟩
    · rw [heq]
    · rw [hnone, hsome]
      exact hchildren

theorem objects_setGlobal (w : World) (name : String) (value : Value) :
    (w.setGlobal name value).objects = w.objects := by
  rw [setGlobal]
  split
  · rfl
  · rfl

theorem Forest.programChange {w w' : World} (hf : Forest w) (h : ProgramChange w w') :
    Forest w' := by
  cases h with
  | setFlag h => exact hf.changeFlag h
  | clearFlag h => exact hf.changeFlag h
  | putProperty h =>
    rw [putProperty_eq_ok h]
    exact hf.modifyObject _ (fun _ => rfl) fun _ => rfl
  | move h => exact hf.move h
  | remove h => exact hf.remove h
  | setGlobal name value => exact hf.of_objects (objects_setGlobal w name value)
  | newTable h =>
    obtain ⟨-, rfl, -⟩ := newTable_eq_ok_iff.mp h
    exact hf.of_objects rfl
  | tablePut h =>
    obtain ⟨tables, rfl⟩ := tablePut_eq_ok h
    exact hf.of_objects rfl

theorem Forest.change {w w' : World} (hf : Forest w) (h : Change w w') : Forest w' := by
  cases h with
  | program h => exact hf.programChange h
  | register h =>
    obtain ⟨-, -, rfl, -⟩ := register_eq_ok_iff.mp h
    exact hf.append rfl rfl rfl
  | declareFlag name => exact hf.of_objects rfl
  | setPropertyDefault name value => exact hf.of_objects rfl
  | fillSlots slots => exact hf.of_objects rfl

end TextAdventure.World
