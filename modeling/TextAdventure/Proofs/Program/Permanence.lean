import TextAdventure.Play.Session
import TextAdventure.Proofs.Program.Transition

/-!
What evaluation can never change.

A program can set flags, properties, globals and cells, move objects about and make tables.  It
cannot change what there is to be called, make or rename objects, or take away what is there.

* `GameObject.Endures`, `World.Endures`, `Machine.Endures` — what an object, a world and a machine
  still are after a program has run;
* `World.Endures.programChange` — every single change of a world leaves it so;
* `endures_transition` — so does every step of evaluation;
* `eval_permanent` — and so does the evaluation of a node, however it ends.
-/

namespace TextAdventure

/-! ### Objects and worlds -/

/-- An object keeps its name, the words it is called by and its reaction, and loses no property. -/
structure GameObject.Endures (o o' : GameObject) : Prop where
  name : o'.name = o.name
  synonyms : o'.synonyms = o.synonyms
  adjectives : o'.adjectives = o.adjectives
  action : o'.action = o.action
  properties : ∀ p, o.properties.contains p = true → o'.properties.contains p = true

/-- A world keeps all its objects and gets no others, keeps the flags it knows and the property
defaults, loses no global, and keeps its tables at their lengths. -/
structure World.Endures (w w' : World) : Prop where
  count : w'.objects.length = w.objects.length
  object {o : ObjectId} {object : GameObject} (h : w.object? o = some object) :
    ∃ object', w'.object? o = some object' ∧ object.Endures object'
  flags : w'.flags = w.flags
  defaults : w'.propertyDefaults = w.propertyDefaults
  globals : ∀ name, w.globals.contains name = true → w'.globals.contains name = true
  table {t : TableId} {cells : Array Value} (h : w.table t = .ok cells) :
    ∃ cells', w'.table t = .ok cells' ∧ cells'.size = cells.size

theorem GameObject.Endures.refl (o : GameObject) : o.Endures o :=
  ⟨rfl, rfl, rfl, rfl, fun _ h => h⟩

theorem GameObject.Endures.trans {o₁ o₂ o₃ : GameObject} (h : o₁.Endures o₂)
    (h' : o₂.Endures o₃) : o₁.Endures o₃ where
  name := h'.name.trans h.name
  synonyms := h'.synonyms.trans h.synonyms
  adjectives := h'.adjectives.trans h.adjectives
  action := h'.action.trans h.action
  properties p hp := h'.properties p (h.properties p hp)

theorem NameMap.contains_insert_of_contains {α : Type} {m : NameMap α} {other : String}
    (h : m.contains other = true) (name : String) (value : α) :
    (m.insert name value).contains other = true := by
  rw [NameMap.contains, NameMap.get?_insert]
  split
  · rfl
  · exact h

namespace World.Endures

variable {w w' w₁ w₂ w₃ : World}

theorem refl (w : World) : w.Endures w where
  count := rfl
  object h := ⟨_, h, .refl _⟩
  flags := rfl
  defaults := rfl
  globals _ h := h
  table h := ⟨_, h, rfl⟩

theorem trans (h : w₁.Endures w₂) (h' : w₂.Endures w₃) : w₁.Endures w₃ where
  count := h'.count.trans h.count
  object hobject := by
    obtain ⟨object₂, hobject₂, hsame⟩ := h.object hobject
    obtain ⟨object₃, hobject₃, hsame'⟩ := h'.object hobject₂
    exact ⟨object₃, hobject₃, hsame.trans hsame'⟩
  flags := h'.flags.trans h.flags
  defaults := h'.defaults.trans h.defaults
  globals name hname := h'.globals name (h.globals name hname)
  table hcells := by
    obtain ⟨cells₂, hcells₂, hsize⟩ := h.table hcells
    obtain ⟨cells₃, hcells₃, hsize'⟩ := h'.table hcells₂
    exact ⟨cells₃, hcells₃, hsize'.trans hsize⟩

theorem modifyObject (w : World) (o : ObjectId) {change : GameObject → GameObject}
    (hchange : ∀ object : GameObject, object.Endures (change object)) :
    w.Endures (w.modifyObject o change) where
  count := List.length_modify _ _ _
  object {x object} hobject := by
    rw [object?_modifyObject, hobject]
    split
    · exact ⟨_, rfl, hchange object⟩
    · exact ⟨_, rfl, .refl object⟩
  flags := rfl
  defaults := rfl
  globals _ h := h
  table h := ⟨_, h, rfl⟩

/-- Places are no part of what endures. -/
theorem detach (w : World) (o : ObjectId) : w.Endures (w.detach o) := by
  rw [World.detach]
  split
  · exact .refl w
  · refine trans (modifyObject w o ?_) (modifyObject _ _ ?_)
    all_goals exact fun _ => ⟨rfl, rfl, rfl, rfl, fun _ h => h⟩

theorem attach (w : World) (o container : ObjectId) : w.Endures (w.attach o container) := by
  rw [World.attach]
  refine trans (modifyObject w container ?_) (modifyObject _ o ?_)
  all_goals exact fun _ => ⟨rfl, rfl, rfl, rfl, fun _ h => h⟩

theorem changeFlag {o : ObjectId} {name : String} {change : FlagSet → Nat → FlagSet}
    (h : w.changeFlag o name change = .ok w') : w.Endures w' := by
  rcases changeFlag_eq_ok h with rfl | ⟨bit, rfl⟩
  · exact .refl w'
  · exact modifyObject w o fun _ => ⟨rfl, rfl, rfl, rfl, fun _ h => h⟩

theorem putProperty {o : ObjectId} {name : String} {value : Value}
    (h : w.putProperty o name value = .ok w') : w.Endures w' := by
  rw [putProperty_eq_ok h]
  refine modifyObject w o fun object => ⟨rfl, rfl, rfl, rfl, fun p hp => ?_⟩
  exact NameMap.contains_insert_of_contains hp _ value

theorem remove {o : ObjectId} (h : w.remove o = .ok w') : w.Endures w' := by
  rw [World.remove] at h
  rcases ho : w.existing o with _ | object
  · rw [ho] at h
    cases h
  · rw [ho] at h
    cases h
    exact detach w o

theorem setGlobal (w : World) (name : String) (value : Value) :
    w.Endures (w.setGlobal name value) := by
  rw [World.setGlobal]
  split
  · exact ⟨rfl, fun h => ⟨_, h, .refl _⟩, rfl, rfl, fun _ h => h, fun h => ⟨_, h, rfl⟩⟩
  · refine ⟨rfl, fun h => ⟨_, h, .refl _⟩, rfl, rfl, fun other h => ?_, fun h => ⟨_, h, rfl⟩⟩
    exact NameMap.contains_insert_of_contains h _ value

/-- The tables that there are do not change when others come behind them, or when one of them is
replaced by one of its length. -/
theorem withTables {tables : List (Array Value)}
    (h : ∀ (i : Nat) (cells : Array Value), w.tables[i]? = some cells →
      ∃ cells', tables[i]? = some cells' ∧ cells'.size = cells.size) :
    w.Endures { w with tables := tables } where
  count := rfl
  object h := ⟨_, h, .refl _⟩
  flags := rfl
  defaults := rfl
  globals _ h := h
  table {t cells} hcells := by
    rw [World.table] at hcells
    rcases hfound : w.tables[t.index]? with _ | found
    · rw [hfound] at hcells
      cases hcells
    · rw [hfound] at hcells
      cases hcells
      obtain ⟨cells', hcells', hsize⟩ := h t.index cells hfound
      exact ⟨cells', by rw [World.table, hcells'], hsize⟩

theorem newTable {cells : List Value} {t : TableId} (h : w.newTable cells = .ok (w', t)) :
    w.Endures w' := by
  obtain ⟨-, rfl, -⟩ := newTable_eq_ok_iff.mp h
  refine withTables fun i found hfound => ⟨found, ?_, rfl⟩
  obtain ⟨hi, -⟩ := List.getElem?_eq_some_iff.mp hfound
  rw [List.getElem?_append_left hi, hfound]

theorem tablePut {t : TableId} {index : Int} {value : Value}
    (h : w.tablePut t index value = .ok w') : w.Endures w' := by
  rw [World.tablePut, World.table] at h
  rcases ht : w.tables[t.index]? with _ | cells
  · rw [ht] at h
    cases h
  rw [ht] at h
  rcases hi : cellIndex index cells.size with _ | i
  · simp only [bind, Except.bind, hi] at h
    cases h
  · simp only [bind, Except.bind, hi] at h
    cases h
    refine withTables fun j found hfound => ?_
    rw [List.getElem?_set]
    split
    · rename_i hj
      subst hj
      obtain ⟨hlt, -⟩ := List.getElem?_eq_some_iff.mp ht
      rw [ht] at hfound
      cases hfound
      exact ⟨_, if_pos hlt, Array.size_setIfInBounds⟩
    · exact ⟨found, hfound, rfl⟩

/-- Every change that a program can make leaves a world enduring. -/
theorem programChange (h : ProgramChange w w') : w.Endures w' := by
  cases h with
  | setFlag h => exact changeFlag h
  | clearFlag h => exact changeFlag h
  | putProperty h => exact putProperty h
  | move h =>
    obtain ⟨-, -, -, -, rfl⟩ := move_eq_ok h
    exact (detach w _).trans (attach _ _ _)
  | remove h => exact remove h
  | setGlobal name value => exact setGlobal w name value
  | newTable h => exact newTable h
  | tablePut h => exact tablePut h

end World.Endures

/-! ### Machines -/

/-- A machine's world endures, its text only grows, and the wish to stop is not taken back. -/
structure Machine.Endures (m m' : Machine) : Prop where
  world : m.world.Endures m'.world
  output : ∃ text, m'.output = m.output ++ text
  quit : m.quit = true → m'.quit = true

theorem Machine.Endures.trans {m₁ m₂ m₃ : Machine} (h : m₁.Endures m₂) (h' : m₂.Endures m₃) :
    m₁.Endures m₃ := by
  obtain ⟨text, htext⟩ := h.output
  obtain ⟨text', htext'⟩ := h'.output
  exact ⟨h.world.trans h'.world, ⟨text ++ text', by rw [htext', htext, String.append_assoc]⟩,
    fun hquit => h'.quit (h.quit hquit)⟩

/-- Where world, text and wish to stop are the same, the machine endures. -/
theorem Machine.Endures.of_eq {m m' : Machine} (hworld : m'.world = m.world)
    (houtput : m'.output = m.output) (hquit : m'.quit = m.quit) : m.Endures m' :=
  ⟨hworld ▸ .refl m.world, ⟨"", by rw [houtput, String.append_empty]⟩, fun h => hquit ▸ h⟩

theorem endures_transition (lib : Library) :
    Transition lib Machine.Endures Machine.Endures where
  refl _ := .of_eq rfl rfl rfl
  trans _ _ _ h h' := h.trans h'
  lift h := h
  andThen _ _ _ h h' := h.trans h'
  output m text := ⟨.refl m.world, ⟨text, rfl⟩, fun h => h⟩
  random _ _ := .of_eq rfl rfl rfl
  quit m := ⟨.refl m.world, ⟨"", String.append_empty.symm⟩, fun _ => rfl⟩
  assign _ _ _ := .of_eq rfl rfl rfl
  world _ _ h := ⟨.programChange h, ⟨"", String.append_empty.symm⟩, fun h => h⟩
  bindName _ _ _ _ := .of_eq rfl rfl rfl
  -- frames and the number of calls are no part of what endures
  endBlock h := ⟨h.world, h.output, h.quit⟩
  endCall _ _ h := ⟨h.world, h.output, h.quit⟩

/-- However the evaluation of a node ends, what can be called, how deep calls may nest and which
global names the actor are the same as before: evaluation only ever reads the library, which no
action on the machine can reach.  The text printed before is still there, with more
behind it, and a wish to stop stands.  There are as many objects, each with its name, its words,
its reaction and all the properties it had; the known flags and the property defaults are the
same; every global that had a value has one; and every table is still there at its length. -/
theorem eval_permanent (g : Game) (fuel : Nat) (node : Node) :
    (g.run (eval g.library fuel node)).2.library = g.library ∧
    g.machine.Endures (g.run (eval g.library fuel node)).2.machine :=
  ⟨rfl, (endures_transition g.library).eval fuel node g.machine⟩

end TextAdventure
