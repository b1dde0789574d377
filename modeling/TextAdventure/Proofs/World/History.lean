import TextAdventure.Proofs.World.InPlace
import TextAdventure.Proofs.World.Numbering

/-!
What is asked of a world, one thing after another.

A world is asked to make objects and tables, to move things about, and to note flags, properties
and globals.  Some of this it may refuse, and then it stays as it is.  What it has become is
determined by what was asked of it, in order, so a law about all worlds that can come about is a
law about lists of demands.

* `World.Demand`, `World.obey` — one thing asked of a world, and what becomes of the world;
* `World.after` — the world after some demands;
* `World.Reachable.exists_demands` — every world that can come about is one of these;
* `Store.after_spec` — a store that meets the demands in place comes to the same world, with
  indexes and a list that agree with it.
-/

namespace TextAdventure

namespace World

/-- Something asked of a world: a call that may fail, or a change that cannot. -/
inductive Demand where
  | call (c : Store.Call)
  | declareFlag (name : String)
  | setPropertyDefault (name : String) (value : Value)
  | setGlobal (name : String) (value : Value)
  | fillSlots (slots : CommandSlots)

/-- What becomes of a world.  A call that fails changes nothing. -/
def obey (w : World) : Demand → World
  | .call c =>
    match c.apply w with
    | .ok made => made.2
    | .error _ => w
  | .declareFlag name => w.declareFlag name
  | .setPropertyDefault name value => w.setPropertyDefault name value
  | .setGlobal name value => w.setGlobal name value
  | .fillSlots slots => { w with slots := slots }

/-- The world after some demands, from the empty one on. -/
def after (demands : List Demand) : World := demands.foldl obey .empty

theorem after_append (demands more : List Demand) :
    after (demands ++ more) = more.foldl obey (after demands) :=
  List.foldl_append

theorem obey_of_ok {w : World} {c : Store.Call} {made : c.Answer × World}
    (h : c.apply w = .ok made) : w.obey (.call c) = made.2 := by
  rw [obey, h]

theorem obey_of_error {w : World} {c : Store.Call} {fault : Fault}
    (h : c.apply w = .error fault) : w.obey (.call c) = w := by
  rw [obey, h]

/-- A call that makes a new world out of a world does so, or fails and changes nothing. -/
theorem obey_edit {w : World} {c : Store.Call} {f : Except Fault World} {a : c.Answer}
    (hc : c.apply w = f.map fun w' => (a, w')) :
    (∃ fault, f = .error fault ∧ w.obey (.call c) = w) ∨ f = .ok (w.obey (.call c)) := by
  rcases f with fault | w'
  · exact .inl ⟨fault, rfl, obey_of_error hc⟩
  · exact .inr (congrArg Except.ok (obey_of_ok hc).symm)

/-! ### Single demands -/

/-- The world with a new object. -/
def registered (w : World) (spec : ObjectSpec) : World :=
  { w with
    objects := w.objects ++ [spec.object (declareAll w.flags spec.flags).2]
    flags := (declareAll w.flags spec.flags).1 }

theorem obey_register (w : World) (spec : ObjectSpec) :
    w.obey (.call (.register spec)) =
      if canonical spec.name ∉ w.names ∧ w.names.length < handleLimit then w.registered spec
      else w := by
  have hok {w' : World} {o : ObjectId} : w.register spec = .ok (w', o) ↔
      (canonical spec.name ∉ w.names ∧ w.names.length < handleLimit) ∧ w' = w.registered spec ∧
        o = ⟨w.objects.length⟩ := by
    rw [register_eq_ok_iff, lookup?_eq_idxOf?, Option.map_eq_none_iff, List.idxOf?_eq_none_iff,
      length_names, and_assoc]
    rfl
  split
  · rename_i hnew
    have happly : (Store.Call.register spec).apply w =
        .ok (⟨w.objects.length⟩, w.registered spec) := by
      rw [Store.Call.apply, hok.mpr ⟨hnew, rfl, rfl⟩]
      rfl
    exact obey_of_ok happly
  · rename_i hold
    rcases hregister : w.register spec with fault | ⟨w', o⟩
    · have happly : (Store.Call.register spec).apply w = .error fault := by
        rw [Store.Call.apply, hregister]
        rfl
      exact obey_of_error happly
    · exact absurd (hok.mp hregister).1 hold

theorem obey_newTable (w : World) (cells : List Value) :
    w.obey (.call (.newTable cells)) =
      if w.tables.length < handleLimit then { w with tables := w.tables ++ [cells.toArray] }
      else w := by
  split
  · rename_i hfree
    have happly : (Store.Call.newTable cells).apply w =
        .ok (⟨w.tables.length⟩, { w with tables := w.tables ++ [cells.toArray] }) := by
      rw [Store.Call.apply, newTable_eq_ok_iff.mpr ⟨hfree, rfl, rfl⟩]
      rfl
    exact obey_of_ok happly
  · rename_i hfull
    rcases hmade : w.newTable cells with fault | ⟨w', t⟩
    · have happly : (Store.Call.newTable cells).apply w = .error fault := by
        rw [Store.Call.apply, hmade]
        rfl
      exact obey_of_error happly
    · exact absurd (newTable_eq_ok_iff.mp hmade).1 hfull

theorem not_has_of_existing {w : World} {o : ObjectId} {fault : Fault}
    (h : w.existing o = .error fault) : ¬ w.Has o := by
  intro ho
  obtain ⟨object, hobject⟩ := existing_of_has ho
  rw [hobject] at h
  cases h

/-- A flag is changed on an object that there is, where the flag is known. -/
theorem changeFlag_eq_ok_iff {w w' : World} {o : ObjectId} {name : String}
    {change : FlagSet → Nat → FlagSet} :
    w.changeFlag o name change = .ok w' ↔ w.Has o ∧
      (w.flags.bit? name = none ∧ w' = w ∨
        ∃ bit, w.flags.bit? name = some bit ∧ w' = w.modifyObject o fun object =>
          { object with flags := change object.flags bit }) := by
  rw [changeFlag]
  rcases ho : w.existing o with fault | object
  · constructor
    · intro h
      cases h
    · intro h
      exact absurd h.1 (not_has_of_existing ho)
  · have hhas := has_of_object? (existing_eq_ok ho)
    simp only [bind, Except.bind]
    rcases hbit : w.flags.bit? name with _ | bit
    · constructor
      · intro h
        cases h
        exact ⟨hhas, .inl ⟨rfl, rfl⟩⟩
      · rintro ⟨-, ⟨-, rfl⟩ | ⟨bit, hsome, -⟩⟩
        · rfl
        · cases hsome
    · constructor
      · intro h
        cases h
        exact ⟨hhas, .inr ⟨bit, rfl, rfl⟩⟩
      · rintro ⟨-, ⟨hnone, -⟩ | ⟨other, hsome, rfl⟩⟩
        · cases hnone
        · cases hsome
          rfl

theorem not_has_of_changeFlag {w : World} {o : ObjectId} {name : String}
    {change : FlagSet → Nat → FlagSet} {fault : Fault}
    (h : w.changeFlag o name change = .error fault) : ¬ w.Has o := by
  intro ho
  rcases hbit : w.flags.bit? name with _ | bit
  · cases h.symm.trans (changeFlag_eq_ok_iff.mpr ⟨ho, .inl ⟨hbit, rfl⟩⟩)
  · cases h.symm.trans (changeFlag_eq_ok_iff.mpr ⟨ho, .inr ⟨bit, hbit, rfl⟩⟩)

theorem unplaced_obey_move (w : World) (o container : ObjectId) :
    (w.obey (.call (.move o container))).unplaced = w.unplaced := by
  obtain ⟨fault, -, heq⟩ | h := obey_edit (c := .move o container) (f := w.move o container) rfl
  · rw [heq]
  · obtain ⟨-, -, -, -, heq⟩ := move_eq_ok h
    rw [heq, unplaced_attach, unplaced_detach]

theorem unplaced_obey_remove (w : World) (o : ObjectId) :
    (w.obey (.call (.remove o))).unplaced = w.unplaced := by
  obtain ⟨fault, -, heq⟩ | h := obey_edit (c := .remove o) (f := w.remove o) rfl
  · rw [heq]
  · rw [remove_eq_ok h, unplaced_detach]

theorem obey_tableGet (w : World) (t : TableId) (index : Int) :
    w.obey (.call (.tableGet t index)) = w := by
  rw [obey, Store.Call.apply]
  rcases w.tableGet t index with fault | value
  · rfl
  · rfl

/-! ### Demands and changes -/

/-- A call that has succeeded has made one change, or none. -/
theorem change_of_apply {w : World} {c : Store.Call} {made : c.Answer × World}
    (h : c.apply w = .ok made) : made.2 = w ∨ Change w made.2 := by
  -- a call that gives nothing but a world gives the world it made
  have hedit {f : Except Fault World} {made : Unit × World}
      (h : f.map (fun w' => ((), w')) = .ok made) : f = .ok made.2 := by
    rcases f with fault | w'
    · cases h
    · cases h
      rfl
  cases c with
  | register spec =>
    rcases hregister : w.register spec with fault | ⟨w', o⟩
    · rw [Store.Call.apply, hregister] at h
      cases h
    · rw [Store.Call.apply, hregister] at h
      cases h
      exact .inr (.register hregister)
  | move o container => exact .inr (.program (.move (hedit h)))
  | remove o => exact .inr (.program (.remove (hedit h)))
  | setFlag o name => exact .inr (.program (.setFlag (hedit h)))
  | clearFlag o name => exact .inr (.program (.clearFlag (hedit h)))
  | putProperty o name value => exact .inr (.program (.putProperty (hedit h)))
  | newTable cells =>
    rcases hmade : w.newTable cells with fault | ⟨w', t⟩
    · rw [Store.Call.apply, hmade] at h
      cases h
    · rw [Store.Call.apply, hmade] at h
      cases h
      exact .inr (.program (.newTable hmade))
  | tableGet t index =>
    rcases hget : w.tableGet t index with fault | value
    · rw [Store.Call.apply, hget] at h
      cases h
    · rw [Store.Call.apply, hget] at h
      cases h
      exact .inl rfl
  | tablePut t index value => exact .inr (.program (.tablePut (hedit h)))

theorem obey_eq_or_change (w : World) (d : Demand) : w.obey d = w ∨ Change w (w.obey d) := by
  cases d with
  | call c =>
    rcases h : c.apply w with fault | made
    · exact .inl (obey_of_error h)
    · rw [obey_of_ok h]
      exact change_of_apply h
  | declareFlag name => exact .inr (.declareFlag w name)
  | setPropertyDefault name value => exact .inr (.setPropertyDefault w name value)
  | setGlobal name value => exact .inr (.program (.setGlobal w name value))
  | fillSlots slots => exact .inr (.fillSlots w slots)

theorem evolves_obey (w : World) (d : Demand) : w.Evolves (w.obey d) := by
  rcases w.obey_eq_or_change d with heq | hchange
  · rw [heq]
    exact .refl w
  · exact .single hchange

theorem evolves_after (demands more : List Demand) :
    (after demands).Evolves (after (demands ++ more)) := by
  rw [after_append]
  exact List.foldlRecOn more obey (.refl _) fun w hw d _ => hw.trans (evolves_obey w d)

theorem Reachable.evolves_to {w w' : World} (hw : Reachable w) (h : w.Evolves w') :
    Reachable w' := by
  induction h with
  | refl => exact hw
  | tail _ hchange ih => exact ih.change hchange

theorem reachable_after (demands : List Demand) : (after demands).Reachable :=
  Reachable.empty.evolves_to (evolves_after [] demands)

/-- Every change is what becomes of a world by some demand. -/
theorem Change.exists_demand {w w' : World} (h : Change w w') : ∃ d, w.obey d = w' := by
  have hedit {c : Store.Call} {f : Except Fault World} (a : c.Answer)
      (hc : c.apply w = f.map fun w' => (a, w')) (hf : f = .ok w') : w.obey (.call c) = w' := by
    rw [hf] at hc
    exact obey_of_ok hc
  cases h with
  | program h =>
    cases h with
    | @setFlag _ o name h => exact ⟨.call (.setFlag o name), hedit () rfl h⟩
    | @clearFlag _ o name h => exact ⟨.call (.clearFlag o name), hedit () rfl h⟩
    | @putProperty _ o name value h => exact ⟨.call (.putProperty o name value), hedit () rfl h⟩
    | @move _ o container h => exact ⟨.call (.move o container), hedit () rfl h⟩
    | @remove _ o h => exact ⟨.call (.remove o), hedit () rfl h⟩
    | setGlobal name value => exact ⟨.setGlobal name value, rfl⟩
    | @newTable _ cells t h =>
      have happly : (Store.Call.newTable cells).apply w = .ok (t, w') := by
        rw [Store.Call.apply, h]
        rfl
      exact ⟨.call (.newTable cells), obey_of_ok happly⟩
    | @tablePut _ t index value h => exact ⟨.call (.tablePut t index value), hedit () rfl h⟩
  | @register _ spec o h =>
    have happly : (Store.Call.register spec).apply w = .ok (o, w') := by
      rw [Store.Call.apply, h]
      rfl
    exact ⟨.call (.register spec), obey_of_ok happly⟩
  | declareFlag name => exact ⟨.declareFlag name, rfl⟩
  | setPropertyDefault name value => exact ⟨.setPropertyDefault name value, rfl⟩
  | fillSlots slots => exact ⟨.fillSlots slots, rfl⟩

/-- Every world that can come about comes about by demands. -/
theorem Reachable.exists_demands {w : World} (h : Reachable w) : ∃ demands, after demands = w := by
  have hevolves := h.evolves
  clear h
  induction hevolves with
  | refl => exact ⟨[], rfl⟩
  | tail _ hchange ih =>
    obtain ⟨demands, rfl⟩ := ih
    obtain ⟨d, rfl⟩ := hchange.exists_demand
    exact ⟨demands ++ [d], after_append demands [d]⟩

/-! ### Names and tables -/

/-- A cell that is written is there, and nothing else is done to the tables. -/
theorem tablePut_eq_ok_iff {w w' : World} {t : TableId} {index : Int} {value : Value} :
    w.tablePut t index value = .ok w' ↔
      ∃ cells, w.tables[t.index]? = some cells ∧ 0 ≤ index ∧ index.toNat < cells.size ∧
        w' = { w with
          tables := w.tables.set t.index (cells.setIfInBounds index.toNat value) } := by
  rw [tablePut, table]
  rcases w.tables[t.index]? with _ | cells
  · constructor
    · intro h
      cases h
    · rintro ⟨cells, hcells, -⟩
      cases hcells
  · simp only [bind, Except.bind, cellIndex]
    by_cases hrange : 0 ≤ index ∧ index.toNat < cells.size
    · rw [if_pos hrange]
      constructor
      · intro h
        cases h
        exact ⟨cells, rfl, hrange.1, hrange.2, rfl⟩
      · rintro ⟨other, hother, -, -, rfl⟩
        cases hother
        rfl
    · rw [if_neg hrange]
      constructor
      · intro h
        cases h
      · rintro ⟨other, hother, hnonneg, hlt, -⟩
        cases hother
        exact absurd ⟨hnonneg, hlt⟩ hrange

/-- No table changes its length. -/
theorem sizes_tablePut {w w' : World} {t : TableId} {index : Int} {value : Value}
    (h : w.tablePut t index value = .ok w') :
    w'.tables.map (·.size) = w.tables.map (·.size) := by
  obtain ⟨cells, hcells, -, -, rfl⟩ := tablePut_eq_ok_iff.mp h
  rw [List.map_set, Array.size_setIfInBounds]
  refine List.ext_getElem? fun i => ?_
  rw [List.getElem?_set]
  split
  · rename_i heq
    subst heq
    have hlt := (List.getElem?_eq_some_iff.mp hcells).1
    rw [if_pos (by rwa [List.length_map]), List.getElem?_map, hcells]
    rfl
  · rfl

theorem names_modifyObject (w : World) (o : ObjectId) {change : GameObject → GameObject}
    (h : ∀ object, (change object).name = object.name) :
    (w.modifyObject o change).names = w.names :=
  map_modifyObject _ w o h

theorem tables_setGlobal (w : World) (name : String) (value : Value) :
    (w.setGlobal name value).tables = w.tables := by
  rw [setGlobal]
  split
  · rfl
  · rfl

end World

/-! ### Demands on a store -/

namespace Store

/-- What becomes of a store.  Whether a call fails or not, what it has changed stays. -/
def obey (s : Store) : World.Demand → Store
  | .call c =>
    match c.inPlace s with
    | .ok _ t => t
    | .error _ t => t
  | .declareFlag name =>
    match s.declareFlag name with
    | .ok _ t => t
    | .error _ t => t
  | .setPropertyDefault name value =>
    { s with
      world := s.world.setPropertyDefault name value
      propertyNames := s.propertyNames.insert (canonical name) }
  | .setGlobal name value => { s with world := s.world.setGlobal name value }
  | .fillSlots slots => { s with world := { s.world with slots := slots } }

/-- The store that keeps the empty world. -/
def empty : Store := ⟨.empty, .empty, .empty, []⟩

/-- The store after some demands, from the empty one on. -/
def after (demands : List World.Demand) : Store := demands.foldl obey empty

theorem Coherent.empty : Store.empty.Coherent where
  names _ := rfl
  flagBits _ := rfl
  propertyNames _ := ⟨nofun, nofun⟩

theorem Coherent.setPropertyDefault {s : Store} (hs : s.Coherent) (name : String) (value : Value) :
    (s.obey (.setPropertyDefault name value)).Coherent where
  names := hs.names
  flagBits := hs.flagBits
  propertyNames other := by
    show canonical other ∈ s.propertyNames.insert (canonical name) ↔
      (s.world.setPropertyDefault name value).isPropertyName other = true
    rw [List.mem_insert_iff, hs.propertyNames, World.isPropertyName, World.isPropertyName,
      Bool.or_eq_true, Bool.or_eq_true]
    show _ ↔ (s.world.propertyDefaults.insert (canonical name) value).contains _ = true ∨ _
    rw [contains_insert, or_assoc]
    rfl

/-- A store meets a demand as its world does. -/
theorem obey_spec {s : Store} (hs : s.Coherent) (hf : s.world.Forest) (d : World.Demand) :
    (s.obey d).world = s.world.obey d ∧ (s.obey d).Coherent := by
  cases d with
  | call c =>
    have hagrees := agrees hs hf c
    rw [obey, World.obey]
    generalize c.apply s.world = e at hagrees
    generalize c.inPlace s = r at hagrees
    cases hagrees with
    | ok a ht => exact ⟨rfl, ht⟩
    | error fault => exact ⟨rfl, hs⟩
  | declareFlag name =>
    obtain ⟨t, ht, hworld, hdeclare⟩ := declareFlag_agrees hs name
    rw [obey, hdeclare]
    exact ⟨hworld, ht⟩
  | setPropertyDefault name value => exact ⟨rfl, hs.setPropertyDefault name value⟩
  | setGlobal name value =>
    refine ⟨rfl, hs.withWorld ?_ ?_⟩
    · rw [World.setGlobal]
      split
      · rfl
      · rfl
    · rw [World.setGlobal]
      split
      · rfl
      · rfl
  | fillSlots slots => exact ⟨rfl, hs.withWorld rfl rfl⟩

/-- A store that meets demands in place comes to the world that meets them at once, and its indexes
and its list agree with it. -/
theorem after_spec (demands : List World.Demand) :
    (after demands).world = World.after demands ∧ (after demands).Coherent := by
  induction demands using List.reverseRecOn with
  | nil => exact ⟨rfl, .empty⟩
  | append_singleton demands d ih =>
    obtain ⟨hworld, hcoherent⟩ := ih
    have hforest := (World.reachable_after demands).forest
    have hstep := obey_spec hcoherent (hworld ▸ hforest) d
    rw [World.after_append, after, List.foldl_append]
    rw [hworld] at hstep
    exact hstep

end Store

end TextAdventure
