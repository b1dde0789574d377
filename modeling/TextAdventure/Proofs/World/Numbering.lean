import TextAdventure.Proofs.Program.Simulation

/-!
The numbering of flags.

A world gives each flag a bit number in the order in which flags become known.  Programs name
flags, and never see the numbers.

* `World.unflagged` — a world with everything about flags taken away;
* `World.Renumbered` — two worlds with the same flags, by name, on the same objects;
* `renumbered_bisimulation` — programs cannot tell such worlds apart;
* `World.FlagsNamed` — no object carries a bit that has no name;
* `FlagsNamed.renumbered` — then flags may become known in any order.

Design notes.  Whatever does not concern flags commutes with taking them away, so of a change of
the world it remains to be said which flags are on which objects afterwards.
-/

namespace TextAdventure

/-! ### Without flags -/

def GameObject.unflagged (object : GameObject) : GameObject := { object with flags := .empty }

namespace World

/-- A world without flags: none is known, and none is on an object. -/
def unflagged (w : World) : World :=
  { w with objects := w.objects.map GameObject.unflagged, flags := .empty }

theorem object?_unflagged (w : World) (o : ObjectId) :
    w.unflagged.object? o = (w.object? o).map GameObject.unflagged :=
  List.getElem?_map ..

theorem parent?_unflagged (w : World) (o : ObjectId) : w.unflagged.parent? o = w.parent? o := by
  rw [parent?, parent?, object?_unflagged]
  rcases w.object? o with _ | object
  · rfl
  · rfl

theorem children_unflagged (w : World) (o : ObjectId) :
    w.unflagged.children o = w.children o := by
  rw [children, children, object?_unflagged]
  rcases w.object? o with _ | object
  · rfl
  · rfl

theorem property_unflagged (w : World) (o : ObjectId) (name : String) :
    w.unflagged.property o name = w.property o name := by
  rw [property, property, object?_unflagged]
  rcases w.object? o with _ | object
  · rfl
  · rfl

theorem objectName_unflagged (w : World) (o : ObjectId) :
    w.unflagged.objectName o = w.objectName o := by
  rw [objectName, objectName, object?_unflagged]
  rcases w.object? o with _ | object
  · rfl
  · rfl

theorem lookup?_unflagged (w : World) (name : String) :
    w.unflagged.lookup? name = w.lookup? name := by
  show ((w.objects.map GameObject.unflagged).findIdx? _).map ObjectId.mk = _
  rw [List.findIdx?_map]
  rfl

theorem isPropertyName_unflagged (w : World) (name : String) :
    w.unflagged.isPropertyName name = w.isPropertyName name := by
  show (_ || (w.objects.map GameObject.unflagged).any _) = _
  rw [List.any_map]
  rfl

theorem meetsAbove_unflagged (w : World) (ancestor : ObjectId) (steps : Nat) (o : ObjectId) :
    w.unflagged.meetsAbove ancestor steps o = w.meetsAbove ancestor steps o := by
  induction steps generalizing o with
  | zero => rfl
  | succ steps ih => simp only [meetsAbove, parent?_unflagged, ih]

theorem isAncestor_unflagged (w : World) (ancestor o : ObjectId) :
    w.unflagged.isAncestor ancestor o = w.isAncestor ancestor o := by
  rw [isAncestor, isAncestor, meetsAbove_unflagged]
  show w.meetsAbove ancestor (w.objects.map GameObject.unflagged).length o = _
  rw [List.length_map]

/-! ### Changes that commute with taking flags away -/

theorem existing_unflagged (w : World) (o : ObjectId) :
    w.unflagged.existing o = (w.existing o).map GameObject.unflagged := by
  rw [existing, existing, object?_unflagged]
  rcases w.object? o with _ | object
  · rfl
  · rfl

theorem unflagged_modifyObject (w : World) (o : ObjectId) (change : GameObject → GameObject)
    (h : ∀ object, (change object).unflagged = change object.unflagged) :
    (w.modifyObject o change).unflagged = w.unflagged.modifyObject o change := by
  have hobjects : (w.objects.modify o.index change).map GameObject.unflagged =
      (w.objects.map GameObject.unflagged).modify o.index change := by
    refine List.ext_getElem? fun i => ?_
    rw [List.getElem?_map, List.getElem?_modify, List.getElem?_modify, List.getElem?_map]
    rcases w.objects[i]? with _ | object
    · rfl
    · by_cases hi : o.index = i
      · simp [hi, h]
      · simp [hi]
  rw [unflagged, unflagged, modifyObject, modifyObject]
  exact congrArg (fun objects => { w with objects := objects, flags := .empty }) hobjects

/-- A change in the flags of an object cannot be seen without flags. -/
theorem unflagged_modifyObject_flags (w : World) (o : ObjectId) (change : FlagSet → FlagSet) :
    (w.modifyObject o fun object => { object with flags := change object.flags }).unflagged =
      w.unflagged := by
  have hobjects : (w.objects.modify o.index fun object =>
      { object with flags := change object.flags }).map GameObject.unflagged =
        w.objects.map GameObject.unflagged := by
    refine List.ext_getElem? fun i => ?_
    rw [List.getElem?_map, List.getElem?_modify, List.getElem?_map]
    rcases w.objects[i]? with _ | object
    · rfl
    · by_cases hi : o.index = i
      · simp [hi, GameObject.unflagged]
      · simp [hi]
  rw [unflagged, unflagged, modifyObject]
  exact congrArg (fun objects => { w with objects := objects, flags := .empty }) hobjects

theorem unflagged_detach (w : World) (o : ObjectId) :
    (w.detach o).unflagged = w.unflagged.detach o := by
  rw [detach, detach, parent?_unflagged]
  rcases w.parent? o with _ | p
  · rfl
  · dsimp only
    rw [unflagged_modifyObject, unflagged_modifyObject]
    · exact fun _ => rfl
    · exact fun _ => rfl

theorem unflagged_attach (w : World) (o container : ObjectId) :
    (w.attach o container).unflagged = w.unflagged.attach o container := by
  rw [attach, attach, unflagged_modifyObject, unflagged_modifyObject]
  · exact fun _ => rfl
  · exact fun _ => rfl

theorem map_move (w : World) (o container : ObjectId) :
    (w.move o container).map unflagged = w.unflagged.move o container := by
  simp only [move, existing_unflagged, isAncestor_unflagged, objectName_unflagged,
    ← unflagged_detach, ← unflagged_attach]
  rcases w.existing o with _ | object
  · rfl
  rcases w.existing container with _ | target
  · rfl
  by_cases hcycle : o = container ∨ w.isAncestor o container
  · simp only [bind, Except.bind, Except.map, if_pos hcycle]
    rfl
  · simp only [bind, Except.bind, Except.map, if_neg hcycle]
    rfl

theorem map_remove (w : World) (o : ObjectId) :
    (w.remove o).map unflagged = w.unflagged.remove o := by
  simp only [remove, existing_unflagged, ← unflagged_detach]
  rcases w.existing o with _ | object
  · rfl
  · rfl

theorem map_putProperty (w : World) (o : ObjectId) (name : String) (value : Value) :
    (w.putProperty o name value).map unflagged = w.unflagged.putProperty o name value := by
  rw [putProperty, putProperty, existing_unflagged, ← unflagged_modifyObject]
  · rcases w.existing o with _ | object
    · rfl
    · rfl
  · exact fun _ => rfl

theorem map_tablePut (w : World) (t : TableId) (index : Int) (value : Value) :
    (w.tablePut t index value).map unflagged = w.unflagged.tablePut t index value := by
  have htable : w.unflagged.table t = w.table t := rfl
  simp only [tablePut, htable]
  rcases w.table t with _ | cells
  · rfl
  simp only [bind, Except.bind]
  rcases cellIndex index cells.size with _ | i
  · rfl
  · rfl

theorem map_changeFlag (w : World) (o : ObjectId) (name : String)
    (change : FlagSet → Nat → FlagSet) :
    (w.changeFlag o name change).map unflagged = w.unflagged.changeFlag o name change := by
  have hunknown : w.unflagged.flags.bit? name = none := rfl
  simp only [changeFlag, existing_unflagged, hunknown]
  rcases w.existing o with _ | object
  · rfl
  rcases w.flags.bit? name with _ | bit
  · rfl
  · exact congrArg Except.ok (unflagged_modifyObject_flags w o fun flags => change flags bit)

end World

/-! ### Names and numbers -/

namespace FlagVocabulary

theorem contains_iff_mem {v : FlagVocabulary} {name : String} :
    v.contains name = true ↔ canonical name ∈ v.names := by
  rw [contains, bit?, List.isSome_idxOf?]

theorem bit?_lt {v : FlagVocabulary} {name : String} {bit : Nat} (h : v.bit? name = some bit) :
    bit < v.names.length := by
  obtain ⟨hlt, -⟩ := List.idxOf?_eq_some_iff.mp h
  exact hlt

/-- A number belongs to one name. -/
theorem bit?_eq_iff {v : FlagVocabulary} {name : String} {bit : Nat}
    (h : v.bit? name = some bit) (other : String) :
    v.bit? other = some bit ↔ canonical other = canonical name := by
  constructor
  · intro h'
    obtain ⟨_, hname, -⟩ := List.idxOf?_eq_some_iff.mp h
    obtain ⟨_, hother, -⟩ := List.idxOf?_eq_some_iff.mp h'
    rw [← hother, hname]
  · intro hsame
    rw [bit?, hsame]
    exact h

/-- A name that is known keeps its number when others become known. -/
theorem bit?_of_prefix {v v' : FlagVocabulary} (h : v.names <+: v'.names) {name : String}
    {bit : Nat} (hbit : v.bit? name = some bit) : v'.bit? name = some bit := by
  obtain ⟨more, hmore⟩ := h
  rw [bit?, ← hmore, List.idxOf?, List.findIdx?_append]
  show (v.bit? name).or _ = _
  rw [hbit]
  rfl

/-- A name that becomes known gets a number behind all others. -/
theorem le_bit?_of_prefix {v v' : FlagVocabulary} (h : v.names <+: v'.names) {name : String}
    (hnone : v.bit? name = none) {bit : Nat} (hbit : v'.bit? name = some bit) :
    v.names.length ≤ bit := by
  obtain ⟨more, hmore⟩ := h
  rw [bit?, ← hmore, List.idxOf?, List.findIdx?_append] at hbit
  change (v.bit? name).or _ = _ at hbit
  rw [hnone, Option.none_or] at hbit
  obtain ⟨i, -, rfl⟩ := Option.map_eq_some_iff.mp hbit
  exact Nat.le_add_left _ i

theorem prefix_declare (v : FlagVocabulary) (name : String) :
    v.names <+: (v.declare name).1.names := by
  rw [declare]
  split
  · exact List.prefix_rfl
  · exact List.prefix_append _ _

theorem declare_lt (v : FlagVocabulary) (name : String) :
    (v.declare name).2 < (v.declare name).1.names.length := by
  rw [declare]
  split
  · rename_i bit hbit
    exact bit?_lt hbit
  · simp

theorem mem_names_declare {v : FlagVocabulary} {name other : String} :
    other ∈ (v.declare name).1.names ↔ other ∈ v.names ∨ other = canonical name := by
  rw [declare]
  split
  · rename_i bit hbit
    have hmem : canonical name ∈ v.names := by
      rw [← contains_iff_mem, contains, hbit]
      rfl
    constructor
    · exact .inl
    · rintro (h | rfl)
      · exact h
      · exact hmem
  · rw [List.mem_append, List.mem_singleton]

end FlagVocabulary

namespace World

/-! ### Flags on objects -/

/-- A change that leaves the flags of an object alone changes no flag. -/
theorem flag_modifyObject (w : World) (o : ObjectId) {change : GameObject → GameObject}
    (h : ∀ object, (change object).flags = object.flags) (x : ObjectId) (name : String) :
    (w.modifyObject o change).flag x name = w.flag x name := by
  have hflags : (w.modifyObject o change).flags = w.flags := rfl
  rw [flag, flag, hflags, object?_modifyObject]
  rcases w.flags.bit? name with _ | bit
  · rfl
  · rcases w.object? x with _ | object
    · by_cases hx : x = o
      · rw [if_pos hx]
        rfl
      · rw [if_neg hx]
    · by_cases hx : x = o
      · rw [if_pos hx]
        show (change object).flags.contains bit = _
        rw [h]
      · rw [if_neg hx]

theorem flags_changeFlag {w v : World} {o : ObjectId} {name : String}
    {change : FlagSet → Nat → FlagSet} (h : w.changeFlag o name change = .ok v) :
    v.flags = w.flags := by
  obtain rfl | ⟨bit, rfl⟩ := changeFlag_eq_ok h
  · rfl
  · rfl

/-- Where a change of flags gives one bit a new state, it does so for the flag of that name on the
object, if the flag is known, and for no other. -/
theorem flag_changeFlag {change : FlagSet → Nat → FlagSet} {on : Bool}
    (hchange : ∀ s bit other, (change s bit).contains other =
      if bit = other then on else s.contains other)
    {w v : World} {o : ObjectId} {name : String} (h : w.changeFlag o name change = .ok v)
    (x : ObjectId) (other : String) :
    v.flag x other =
      if x = o ∧ canonical other = canonical name ∧ w.flags.contains name = true then on
      else w.flag x other := by
  rw [changeFlag] at h
  rcases ho : w.existing o with _ | object
  · rw [ho] at h
    cases h
  have hobject := existing_eq_ok ho
  rw [ho] at h
  rcases hbit : w.flags.bit? name with _ | bit
  · have hunknown : w.flags.contains name = false := by rw [FlagVocabulary.contains, hbit]; rfl
    simp only [bind, Except.bind, hbit] at h
    cases h
    rw [if_neg fun hc => by simp [hunknown] at hc]
  · have hknown : w.flags.contains name = true := by rw [FlagVocabulary.contains, hbit]; rfl
    simp only [bind, Except.bind, hbit] at h
    cases h
    have hflags (change : GameObject → GameObject) : (w.modifyObject o change).flags = w.flags := rfl
    simp only [flag, hflags, object?_modifyObject, hknown, and_true]
    by_cases hx : x = o
    · subst hx
      simp only [if_true, hobject, Option.map_some, true_and]
      rcases hother : w.flags.bit? other with _ | number
      · have hne : canonical other ≠ canonical name := by
          intro hsame
          rw [FlagVocabulary.bit?, hsame] at hother
          cases hother.symm.trans hbit
        rw [if_neg hne]
      · have hiff := FlagVocabulary.bit?_eq_iff hbit other
        rw [hother] at hiff
        by_cases hsame : canonical other = canonical name
        · obtain rfl := Option.some.inj (hiff.mpr hsame)
          rw [if_pos hsame]
          exact (hchange _ _ _).trans (if_pos rfl)
        · rw [if_neg hsame]
          refine (hchange _ _ _).trans (if_neg fun heq => hsame (hiff.mp ?_))
          rw [heq]
    · rw [if_neg hx, if_neg fun hc => hx hc.1]

/-! ### Worlds that differ in the numbering of flags -/

/-- Two worlds differ in the numbering of flags only: without flags they are the same, they know the
same flags, and by name the same flags are on the same objects. -/
structure Renumbered (w w' : World) : Prop where
  bare : w.unflagged = w'.unflagged
  names (name : String) : name ∈ w.flags.names ↔ name ∈ w'.flags.names
  flag (o : ObjectId) (name : String) : w.flag o name = w'.flag o name

namespace Renumbered

variable {w w' : World}

theorem refl (w : World) : Renumbered w w where
  bare := rfl
  names _ := .rfl
  flag _ _ := rfl

theorem knownFlag (h : Renumbered w w') (name : String) :
    w.flags.contains name = w'.flags.contains name := by
  rw [Bool.eq_iff_iff, FlagVocabulary.contains_iff_mem, FlagVocabulary.contains_iff_mem]
  exact h.names (canonical name)

/-- What does not look at flags gives the same. -/
theorem congr {α : Type} (h : Renumbered w w') (f : World → α) (hf : ∀ w, f w.unflagged = f w) :
    f w = f w' := by
  rw [← hf w, h.bare, hf w']

theorem looks (h : Renumbered w w') : w.LooksLike w' where
  global? name := h.congr (·.global? name) fun _ => rfl
  lookup? name := h.congr (·.lookup? name) fun w => w.lookup?_unflagged name
  knownFlag := h.knownFlag
  isPropertyName name := h.congr (·.isPropertyName name) fun w => w.isPropertyName_unflagged name
  flag := h.flag
  property o name := h.congr (·.property o name) fun w => w.property_unflagged o name
  parent? o := h.congr (·.parent? o) fun w => w.parent?_unflagged o
  children o := h.congr (·.children o) fun w => w.children_unflagged o
  isAncestor a o := h.congr (·.isAncestor a o) fun w => w.isAncestor_unflagged a o
  tableGet t index := h.congr (·.tableGet t index) fun _ => rfl
  slots := h.congr (·.slots) fun _ => rfl
  objectName o := h.congr (·.objectName o) fun w => w.objectName_unflagged o

/-- A change that commutes with taking flags away, keeps the names of flags, and gives flags to
objects alike. -/
theorem attempt (h : Renumbered w w') {f : World → Except Fault World}
    (hmap : ∀ w, (f w).map unflagged = f w.unflagged)
    (hnames : ∀ {w v}, f w = .ok v → v.flags = w.flags)
    (hflag : ∀ {v v'}, f w = .ok v → f w' = .ok v' → ∀ o name, v.flag o name = v'.flag o name) :
    Attempt.Matches Renumbered (f w) (f w') := by
  have hbare : (f w).map unflagged = (f w').map unflagged := by rw [hmap, hmap, h.bare]
  rcases hv : f w with fault | v
  all_goals rcases hv' : f w' with fault' | v'
  all_goals rw [hv, hv'] at hbare
  · obtain rfl := Except.error.inj hbare
    exact .error fault
  · cases hbare
  · cases hbare
  · refine .ok ⟨Except.ok.inj hbare, fun name => ?_, hflag hv hv'⟩
    rw [hnames hv, hnames hv']
    exact h.names name

/-- A change that has nothing to do with flags. -/
theorem attempt_of_steady (h : Renumbered w w') {f : World → Except Fault World}
    (hmap : ∀ w, (f w).map unflagged = f w.unflagged)
    (hnames : ∀ {w v}, f w = .ok v → v.flags = w.flags)
    (hflag : ∀ {w v}, f w = .ok v → ∀ o name, v.flag o name = w.flag o name) :
    Attempt.Matches Renumbered (f w) (f w') := by
  refine h.attempt hmap hnames fun hv hv' o name => ?_
  rw [hflag hv, hflag hv', h.flag]

theorem changeFlag (h : Renumbered w w') {change : FlagSet → Nat → FlagSet} (on : Bool)
    (hchange : ∀ s bit other, (change s bit).contains other =
      if bit = other then on else s.contains other) (o : ObjectId) (name : String) :
    Attempt.Matches Renumbered (w.changeFlag o name change) (w'.changeFlag o name change) := by
  refine h.attempt (f := (·.changeFlag o name change)) (fun w => map_changeFlag w o name change)
    flags_changeFlag fun hv hv' x other => ?_
  rw [flag_changeFlag hchange hv, flag_changeFlag hchange hv', h.knownFlag, h.flag]

end Renumbered

theorem flag_detach (w : World) (o x : ObjectId) (name : String) :
    (w.detach o).flag x name = w.flag x name := by
  rw [detach]
  rcases w.parent? o with _ | p
  · rfl
  · dsimp only
    rw [flag_modifyObject, flag_modifyObject]
    · exact fun _ => rfl
    · exact fun _ => rfl

theorem flag_attach (w : World) (o container x : ObjectId) (name : String) :
    (w.attach o container).flag x name = w.flag x name := by
  rw [attach, flag_modifyObject, flag_modifyObject]
  · exact fun _ => rfl
  · exact fun _ => rfl

theorem flags_detach (w : World) (o : ObjectId) : (w.detach o).flags = w.flags := by
  rw [detach]
  rcases w.parent? o with _ | p
  · rfl
  · rfl

theorem remove_eq_ok {w v : World} {o : ObjectId} (h : w.remove o = .ok v) : v = w.detach o := by
  rw [remove] at h
  rcases ho : w.existing o with _ | object
  · rw [ho] at h
    cases h
  · rw [ho] at h
    cases h
    rfl

theorem Renumbered.edit {w w' : World} (h : Renumbered w w') {f : World → Except Fault World}
    (hf : World.Edit (fun _ => True) f) : Attempt.Matches Renumbered (f w) (f w') := by
  cases hf with
  | @setFlag o _ name =>
    refine h.changeFlag true (fun s bit other => ?_) o name
    rw [FlagSet.contains_insert]
    by_cases heq : bit = other
    · simp [heq]
    · simp [heq]
  | @clearFlag o _ name =>
    refine h.changeFlag false (fun s bit other => ?_) o name
    rw [FlagSet.contains_remove]
    by_cases heq : bit = other
    · simp [heq]
    · simp [heq]
  | @putProperty o _ name value _ =>
    refine h.attempt_of_steady (f := (·.putProperty o name value))
      (fun w => map_putProperty w o name value) (fun hv => ?_) fun hv x flag => ?_
    · rw [putProperty_eq_ok hv]
      rfl
    · rw [putProperty_eq_ok hv, flag_modifyObject]
      exact fun _ => rfl
  | @move o container _ _ =>
    refine h.attempt_of_steady (f := (·.move o container)) (fun w => map_move w o container)
      (fun hv => ?_) fun hv x flag => ?_
    · obtain ⟨-, -, -, -, rfl⟩ := move_eq_ok hv
      exact flags_detach _ o
    · obtain ⟨-, -, -, -, rfl⟩ := move_eq_ok hv
      rw [flag_attach, flag_detach]
  | @remove o _ =>
    refine h.attempt_of_steady (f := (·.remove o)) (fun w => map_remove w o) (fun hv => ?_)
      fun hv x flag => ?_
    · rw [remove_eq_ok hv, flags_detach]
    · rw [remove_eq_ok hv, flag_detach]
  | @tablePut t _ index value _ =>
    refine h.attempt_of_steady (f := (·.tablePut t index value))
      (fun w => map_tablePut w t index value) (fun hv => ?_) fun hv x flag => ?_
    · obtain ⟨tables, rfl⟩ := tablePut_eq_ok hv
      rfl
    · obtain ⟨tables, rfl⟩ := tablePut_eq_ok hv
      rfl

/-- Changes of what has nothing to do with objects and flags. -/
theorem Renumbered.update {w w' : World} (h : Renumbered w w') {f : World → World}
    (hmap : ∀ w, (f w).unflagged = f w.unflagged) (hflags : ∀ w, (f w).flags = w.flags)
    (hobjects : ∀ w, (f w).objects = w.objects) : Renumbered (f w) (f w') where
  bare := by rw [hmap, hmap, h.bare]
  names name := by
    rw [hflags, hflags]
    exact h.names name
  flag o name := by
    have hflag (w : World) : (f w).flag o name = w.flag o name := by
      rw [World.flag, World.flag, object?, object?, hflags, hobjects]
    rw [hflag, hflag, h.flag]

theorem Renumbered.setGlobal {w w' : World} (h : Renumbered w w') (name : String) (value : Value) :
    Renumbered (w.setGlobal name value) (w'.setGlobal name value) := by
  refine h.update (f := (·.setGlobal name value)) (fun w => ?_) (fun w => ?_)
    fun w => objects_setGlobal w name value
  · rw [World.setGlobal, World.setGlobal]
    split
    · rfl
    · rfl
  · rw [World.setGlobal]
    split
    · rfl
    · rfl

theorem Renumbered.setPropertyDefault {w w' : World} (h : Renumbered w w') (name : String)
    (value : Value) :
    Renumbered (w.setPropertyDefault name value) (w'.setPropertyDefault name value) :=
  h.update (f := (·.setPropertyDefault name value)) (fun _ => rfl) (fun _ => rfl) fun _ => rfl

/-- Programs cannot tell apart worlds that differ in the numbering of flags. -/
theorem renumbered_bisimulation : Bisimulation Renumbered where
  looks := Renumbered.looks
  edit hf _ _ h := h.edit hf
  setGlobal h name value := h.setGlobal name value
  newTable {w w'} h cells := by
    have htables : w.tables = w'.tables := h.congr (fun w => w.tables) fun _ => rfl
    rw [newTable, newTable, htables]
    refine .bind (.refl _) ?_
    rintro index _ rfl
    refine .ok ⟨?_, rfl⟩
    have hboth := h.update (f := fun w => { w with tables := w.tables ++ [cells.toArray] })
      (fun _ => rfl) (fun _ => rfl) fun _ => rfl
    simpa only [htables] using hboth

/-! ### Making flags known -/

/-- Every flag that an object carries has a name. -/
def FlagsNamed (w : World) : Prop :=
  ∀ object ∈ w.objects, ∀ bit, object.flags.contains bit = true → bit < w.flags.names.length

theorem FlagsNamed.empty : FlagsNamed World.empty := fun _ h => nomatch h

/-- No flag gets on or off an object when more flags become known. -/
theorem FlagsNamed.flag_of_prefix {w w' : World} (h : w.FlagsNamed)
    (hobjects : w'.objects = w.objects) (hnames : w.flags.names <+: w'.flags.names) (o : ObjectId)
    (name : String) : w'.flag o name = w.flag o name := by
  rw [flag, flag, object?, object?, hobjects]
  rcases hbit : w.flags.bit? name with _ | bit
  · rcases hbit' : w'.flags.bit? name with _ | bit
    · rfl
    · -- the flag is new, so no object carries its number
      have hle := FlagVocabulary.le_bit?_of_prefix hnames hbit hbit'
      rcases ho : w.objects[o.index]? with _ | object
      · rfl
      · show object.flags.contains bit = false
        rw [Bool.eq_false_iff]
        intro hcontains
        have hlt := h object (List.mem_of_getElem? ho) bit hcontains
        omega
  · rw [FlagVocabulary.bit?_of_prefix hnames hbit]

/-- Declared flags come behind those that are known, and all their numbers are in use. -/
theorem declareAll_spec (v : FlagVocabulary) (names : List String) :
    v.names <+: (declareAll v names).1.names ∧
      ∀ bit, (declareAll v names).2.contains bit = true →
        bit < (declareAll v names).1.names.length := by
  rw [declareAll]
  refine List.foldlRecOn (motive := fun made : FlagVocabulary × FlagSet =>
    v.names <+: made.1.names ∧ ∀ bit, made.2.contains bit = true → bit < made.1.names.length)
    names _ ⟨List.prefix_rfl, fun bit hbit => by simp at hbit⟩ ?_
  rintro ⟨made, set⟩ ⟨hgrows, hnumbers⟩ name -
  have hmore := made.prefix_declare name
  refine ⟨hgrows.trans hmore, fun bit hbit => ?_⟩
  change (set.insert (made.declare name).2).contains bit = true at hbit
  rw [FlagSet.contains_insert, Bool.or_eq_true, decide_eq_true_iff] at hbit
  rcases hbit with rfl | hbit
  · exact made.declare_lt name
  · exact (hnumbers bit hbit).trans_le hmore.length_le

theorem FlagsNamed.register {w w' : World} {spec : ObjectSpec} {o : ObjectId} (h : w.FlagsNamed)
    (hregister : w.register spec = .ok (w', o)) : w'.FlagsNamed := by
  obtain ⟨-, -, rfl, -⟩ := register_eq_ok_iff.mp hregister
  obtain ⟨hgrows, hnew⟩ := declareAll_spec w.flags spec.flags
  intro object hobject bit hbit
  rcases List.mem_append.mp hobject with hold | hlast
  · exact (h object hold bit hbit).trans_le hgrows.length_le
  · obtain rfl := List.mem_singleton.mp hlast
    exact hnew bit hbit

theorem declareFlags_spec (w : World) (names : List String) :
    (names.foldl declareFlag w).unflagged = w.unflagged ∧
    (names.foldl declareFlag w).objects = w.objects ∧
    w.flags.names <+: (names.foldl declareFlag w).flags.names ∧
    ∀ name, name ∈ (names.foldl declareFlag w).flags.names ↔
      name ∈ w.flags.names ∨ name ∈ names.map canonical := by
  induction names generalizing w with
  | nil => exact ⟨rfl, rfl, List.prefix_rfl, fun name => by simp⟩
  | cons first names ih =>
    obtain ⟨hbare, hobjects, hgrows, hnames⟩ := ih (w.declareFlag first)
    refine ⟨hbare, hobjects, (w.flags.prefix_declare first).trans hgrows, fun name => ?_⟩
    rw [List.foldl_cons, hnames, declareFlag, FlagVocabulary.mem_names_declare, List.map_cons,
      List.mem_cons, or_assoc]

/-- Flags may become known in any order, and any number of times. -/
theorem FlagsNamed.renumbered {w : World} (h : w.FlagsNamed) {names names' : List String}
    (hsame : ∀ name, name ∈ names.map canonical ↔ name ∈ names'.map canonical) :
    Renumbered (names.foldl declareFlag w) (names'.foldl declareFlag w) := by
  obtain ⟨hbare, hobjects, hgrows, hnames⟩ := declareFlags_spec w names
  obtain ⟨hbare', hobjects', hgrows', hnames'⟩ := declareFlags_spec w names'
  refine ⟨hbare.trans hbare'.symm, fun name => ?_, fun o name => ?_⟩
  · rw [hnames, hnames', hsame]
  · rw [h.flag_of_prefix hobjects hgrows, h.flag_of_prefix hobjects' hgrows']

end World

end TextAdventure
