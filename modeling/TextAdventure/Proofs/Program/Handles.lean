import TextAdventure.Proofs.Program.Discipline
import TextAdventure.Proofs.Program.Extent
import TextAdventure.Proofs.Program.Transition

/-!
Programs keep handles in range.

Run on a sound machine, a program leaves a sound machine behind, however it ends, and what it hands
out holds handles in range only.  So it never meets a handle that stands for nothing, and the faults
that say so do not come up.

* `Machine.Sound` — everything stored in a machine is in range;
* `Fault.AllowedAt` — a fault is allowed, or it says that handles for tables have run out, which is
  true;
* `Run.Closed` — an action keeps a machine sound, and ends with values in range or with a fault that
  is allowed;
* `handle_logic` — the rules of programs hold of this, as soon as ordinary faults are allowed;
* `eval_closed`, `call_closed`, `applyValue_closed`, `evalSource_closed` — so it holds of programs.
-/

namespace TextAdventure

/-- A sound world, and a frame whose variables are in range. -/
structure Machine.Sound (m : Machine) : Prop where
  world : m.world.Sound
  frame : m.frame.InRange m.world.extent

theorem Machine.Sound.withWorld {m : Machine} (hm : m.Sound) {w : World}
    (hw : m.world.SoundAfter w) : Machine.Sound { m with world := w } :=
  ⟨hw.sound, hm.frame.mono hw.extent⟩

theorem World.lookup?_lt {w : World} {name : String} {o : ObjectId} (h : w.lookup? name = some o) :
    w.Has o := by
  obtain ⟨i, hi, rfl⟩ := Option.map_eq_some_iff.mp h
  exact (List.findIdx?_eq_some_iff_getElem.mp hi).1

theorem World.lt_of_tableGet {w : World} {t : TableId} {index : Int} {v : Value}
    (h : w.tableGet t index = .ok v) : t.index < w.tables.length := by
  by_contra hlt
  rw [World.tableGet, World.table, List.getElem?_eq_none (Nat.le_of_not_lt hlt)] at h
  cases h

theorem World.Sound.global? {w : World} (h : w.Sound) {name : String} {v : Value}
    (hv : w.global? name = some v) : v.InRange w.extent := by
  rw [World.global?] at hv
  split at hv
  · cases hv
    exact h.inRange.slots _
  · exact h.inRange.globals.get? hv

theorem World.Sound.property {w : World} (h : w.Sound) (o : ObjectId) (name : String) :
    (w.property o name).InRange w.extent := by
  rw [World.property]
  split
  · rename_i value hvalue
    obtain ⟨object, hobject, hown⟩ := Option.bind_eq_some_iff.mp hvalue
    exact (h.inRange.properties object (List.mem_of_getElem? hobject)).get? hown
  · cases hd : w.propertyDefaults.get? (canonical name) with
    | none => exact trivial
    | some value => exact h.inRange.defaults.get? hd

/-- What a program can read off a sound machine is in range. -/
theorem Machine.Sound.gives {m : Machine} (h : m.Sound) :
    m.Gives (·.InRange m.world.extent) where
  local? hv := h.frame.get? hv
  global? hv := h.world.global? hv
  lookup? ho := World.lookup?_lt ho
  property := h.world.property
  parent hp := h.world.forest.parent_has hp
  child hc := h.world.forest.child_has hc
  cell {_ index _} hv := (h.world.tableGet (World.lt_of_tableGet hv) index).of_ok hv

/-! ### Actions that keep a machine sound -/

theorem Failure.fault_inRoutine (f : Failure) (name : String) :
    (f.inRoutine name).fault = f.fault := by
  rw [Failure.inRoutine]
  split <;> rfl

/-- A fault is allowed, or it refuses a table in a world that has all the tables there can be. -/
def Fault.AllowedAt (allowed : Fault → Prop) (e : Extent) (fault : Fault) : Prop :=
  allowed fault ∨ fault = .outOfHandles "tables" ∧ handleLimit ≤ e.tables

theorem Fault.AllowedAt.mono {allowed : Fault → Prop} {e e' : Extent} {fault : Fault}
    (h : fault.AllowedAt allowed e) (hle : e ≤ e') : fault.AllowedAt allowed e' :=
  h.imp_right fun ⟨hfault, hfull⟩ => ⟨hfault, hfull.trans hle.2⟩

/-- What an outcome hands out is in range, and the fault it reports is allowed. -/
def Outcome.Closed {α : Type} (allowed : Fault → Prop) (V : Extent → α → Prop) (e : Extent) :
    Outcome α → Prop
  | .done a => V e a
  | .signal s => s.value.InRange e
  | .failed f => f.fault.AllowedAt allowed e
  | .exhausted _ => True

/-- A run that began at an extent has ended with a sound machine and a closed outcome. -/
structure EndedClosed {α : Type} (allowed : Fault → Prop) (s : Extent) (V : Extent → α → Prop)
    (ended : Outcome α × Machine) : Prop where
  sound : ended.2.Sound
  extent : s ≤ ended.2.world.extent
  outcome : ended.1.Closed allowed V ended.2.world.extent

/-- Run on a sound machine of a given extent, an action ends with a sound machine and a closed
outcome. -/
def Run.Closed {α : Type} (allowed : Fault → Prop) (s : Extent) (V : Extent → α → Prop)
    (act : Run α) : Prop :=
  ∀ m, m.Sound → m.world.extent = s → EndedClosed allowed s V (act m)

namespace Run.Closed

variable {α β : Type} {allowed : Fault → Prop} {s : Extent} {V : Extent → α → Prop}
  {U : Extent → β → Prop}

theorem of_same {act : Run α} (hsame : ∀ m, (act m).2 = m)
    (hout : ∀ m, m.Sound → m.world.extent = s → (act m).1.Closed allowed V s) :
    Run.Closed allowed s V act := by
  intro m hm hs
  refine ⟨?_, ?_, ?_⟩
  · rw [hsame]
    exact hm
  · rw [hsame, hs]
    exact s.le_refl
  · rw [hsame, hs]
    exact hout m hm hs

theorem bind {act : Run α} {next : α → Run β} (hact : Run.Closed allowed s V act)
    (hnext : ∀ t, s ≤ t → ∀ a, V t a → Run.Closed allowed t U (next a)) :
    Run.Closed allowed s U (act >>= next) := by
  intro m hm hs
  obtain ⟨hsound, hextent, hout⟩ := hact m hm hs
  rcases hrun : act m with ⟨a | sig | f | _, m'⟩
  all_goals rw [hrun] at hsound hextent hout
  · obtain ⟨hsound', hextent', hout'⟩ := hnext _ hextent a hout m' hsound rfl
    rw [bind_of_done hrun]
    exact ⟨hsound', Extent.le_trans hextent hextent', hout'⟩
  · rw [bind_of_signal hrun]
    exact ⟨hsound, hextent, hout⟩
  · rw [bind_of_failed hrun]
    exact ⟨hsound, hextent, hout⟩
  · rw [bind_of_exhausted hrun]
    exact ⟨hsound, hextent, trivial⟩

/-- A change of the world that leaves it sound, or is refused for a fault that is allowed. -/
theorem changeWorld {f : World → Except Fault World}
    (hchanged : ∀ w w' : World, w.Sound → w.extent = s → f w = .ok w' → w.SoundAfter w')
    (hrefused : ∀ w fault, w.Sound → w.extent = s → f w = .error fault → allowed fault) :
    Run.Closed allowed s (fun _ _ => True) (Run.changeWorld f) := by
  intro m hm hs
  rw [Run.changeWorld]
  rcases hf : f m.world with fault | w
  · exact ⟨hm, Extent.le_of_eq hs.symm, .inl (hrefused m.world fault hm.world hs hf)⟩
  · have hafter := hchanged m.world w hm.world hs hf
    exact ⟨hm.withWorld hafter, hs ▸ hafter.extent, trivial⟩

theorem modifyWorld {f : World → World}
    (hf : ∀ w : World, w.Sound → w.extent = s → w.SoundAfter (f w)) :
    Run.Closed allowed s (fun _ _ => True) (Run.modifyWorld f) := by
  intro m hm hs
  have hafter := hf m.world hm.world hs
  exact ⟨hm.withWorld hafter, hs ▸ hafter.extent, trivial⟩

theorem modifyFrame {f : Frame → Frame} (hf : ∀ frame, frame.InRange s → (f frame).InRange s) :
    Run.Closed allowed s (fun _ _ => True) (Run.modifyFrame f) := by
  intro m hm hs
  refine ⟨⟨hm.world, ?_⟩, Extent.le_of_eq hs.symm, trivial⟩
  subst hs
  exact hf m.frame hm.frame

theorem forever {act : Run Unit}
    (hact : ∀ t, s ≤ t → Run.Closed allowed t (fun _ _ => True) act) (fuel : Nat) :
    Run.Closed allowed s (fun e v => v.InRange e) (Run.forever act fuel) := by
  induction fuel generalizing s with
  | zero => exact .of_same (fun _ => rfl) fun _ _ _ => trivial
  | succ fuel ih =>
    rw [Run.forever_succ]
    exact .bind (hact s s.le_refl) fun t ht _ _ => ih fun u hu => hact u (Extent.le_trans ht hu)

variable {act : Run Value}

theorem collapse (hact : Run.Closed allowed s (fun e v => v.InRange e) act) :
    Run.Closed allowed s (fun e v => v.InRange e) act.collapse := by
  intro m hm hs
  obtain ⟨hsound, hextent, hout⟩ := hact m hm hs
  refine ⟨?_, ?_, ?_⟩
  · rw [Run.snd_collapse]
    exact hsound
  · rw [Run.snd_collapse]
    exact hextent
  · rw [Run.fst_collapse, Run.snd_collapse]
    generalize (act m).1 = ended at hout ⊢
    cases ended <;> exact hout

theorem withinBlock (hact : Run.Closed allowed s (fun e v => v.InRange e) act) :
    Run.Closed allowed s (fun e v => v.InRange e) act.withinBlock := by
  intro m hm hs
  obtain ⟨hsound, hextent, hout⟩ :=
    hact { m with frame := m.frame.openBlock } ⟨hm.world, hm.frame.openBlock⟩ hs
  refine ⟨?_, ?_, ?_⟩
  · rw [Run.snd_withinBlock]
    exact ⟨hsound.world, hsound.frame.closeBlock⟩
  · rw [Run.snd_withinBlock]
    exact hextent
  · rw [Run.fst_withinBlock, Run.snd_withinBlock]
    generalize (act { m with frame := m.frame.openBlock }).1 = ended at hout ⊢
    cases ended with
    | signal raised => cases raised <;> exact hout
    | done v => exact hout
    | failed f => exact hout
    | exhausted _ => exact hout

theorem withinCall (hact : Run.Closed allowed s (fun e v => v.InRange e) act) (name : String) :
    Run.Closed allowed s (fun e v => v.InRange e) (act.withinCall name) := by
  intro m hm hs
  obtain ⟨hsound, hextent, hout⟩ :=
    hact { m with frame := .forRoutine name, depth := m.depth + 1 } ⟨hm.world, .forRoutine name⟩ hs
  refine ⟨?_, ?_, ?_⟩
  · rw [Run.snd_withinCall]
    -- the caller's frame comes back unchanged, to a world that has only grown
    exact ⟨hsound.world, hm.frame.mono (hs ▸ hextent)⟩
  · rw [Run.snd_withinCall]
    exact hextent
  · rw [Run.fst_withinCall, Run.snd_withinCall]
    generalize (act { m with frame := .forRoutine name, depth := m.depth + 1 }).1 = ended
      at hout ⊢
    cases ended with
    | failed f =>
      show (f.inRoutine name).fault.AllowedAt allowed _
      rw [Failure.fault_inRoutine]
      exact hout
    | done v => exact hout
    | signal raised => exact hout
    | exhausted _ => exact hout

theorem atTopLevel (hact : Run.Closed allowed s (fun e v => v.InRange e) act) :
    Run.Closed allowed s (fun e v => v.InRange e) (atTopLevel act) := by
  intro m hm hs
  obtain ⟨hsound, hextent, hout⟩ :=
    hact { m with frame := .topLevel } ⟨hm.world, .topLevel⟩ hs
  exact ⟨⟨hsound.world, hm.frame.mono (hs ▸ hextent)⟩, hextent, hout⟩

end Run.Closed

/-! ### Programs -/

/-- The judgement that an action keeps a machine sound; its stages are extents. -/
def handleJudgement (allowed : Fault → Prop) : Judgement where
  Stage := Extent
  Later s t := s ≤ t
  Deeper s t := s = t
  At s m := m.Sound ∧ m.world.extent = s
  Good s v := v.InRange s
  Known _ _ := True
  Fails := allowed
  Permits _ := True
  Holds s V act _ := Run.Closed allowed s V act
  Head s V act _ := Run.Closed allowed s V act

theorem handle_logic {allowed : Fault → Prop}
    (hallowed : ∀ fault, fault.isOrdinary = true → allowed fault) (lib : Library) :
    ProgramLogic (handleJudgement allowed) lib where
  good_later h _ hv := hv.mono h
  good_deeper h _ hv := h ▸ hv
  good_plain h := Value.inRange_of_isPlain h
  good_list := Value.inRange_list
  known_later _ _ _ := trivial
  known_item _ _ _ := trivial
  known_routine _ _ _ _ _ _ := trivial
  fails h := hallowed _ (Fault.isOrdinary_of_isOwn h)
  gives h := h.2 ▸ h.1.gives
  cell_fault {s m} h {t} ht {index fault} hf := by
    obtain ⟨hm, rfl⟩ := h
    have hown := (hm.world.tableGet (t := t) ht index).of_error hf
    exact hallowed fault (Fault.isOrdinary_of_isOwn hown)
  pure ha := .of_same (fun _ => rfl) fun _ _ _ => ha
  bind hact hnext := .bind hact hnext
  fail h := .of_same (fun _ => rfl) fun _ _ _ => .inl h
  returnTrue := .of_same (fun _ => rfl) fun _ _ _ => trivial
  returnFalse := .of_same (fun _ => rfl) fun _ _ _ => trivial
  leaveWith {s value} h := by
    refine .of_same (fun m => by rw [leaveWith_apply]) fun m _ _ => ?_
    rw [leaveWith_apply]
    show (m.frame.returnSignal value).value.InRange s
    rw [Frame.value_returnSignal]
    exact h
  collapse hact := .collapse hact
  read _ h := .of_same (fun _ => rfl) fun m hm hs => h m ⟨hm, hs⟩
  print _ := fun m hm hs => ⟨⟨hm.world, hm.frame⟩, Extent.le_of_eq hs.symm, trivial⟩
  random _ := fun m hm hs => ⟨⟨hm.world, hm.frame⟩, Extent.le_of_eq hs.symm, trivial⟩
  quit := fun m hm hs => ⟨⟨hm.world, hm.frame⟩, Extent.le_of_eq hs.symm, trivial⟩
  assign name _ h := .modifyFrame fun _ hf => hf.assign name h
  setGlobal name _ h := .modifyWorld fun _ hw hs => hw.setGlobal name (hs ▸ h)
  makeTable {s cells} h := by
    intro m hm hs
    have hcells : ∀ v ∈ cells, v.InRange m.world.extent := fun v hv => hs ▸ h v hv
    rw [makeTable]
    rcases hw : m.world.newTable cells with fault | ⟨w, t⟩
    · refine ⟨hm, Extent.le_of_eq hs.symm, .inr ?_⟩
      exact World.newTable_eq_error hw
    · have hafter := hm.world.newTable hcells hw
      refine ⟨hm.withWorld hafter, hs ▸ hafter.extent, ?_⟩
      -- the handle is that of the last table, so it is in range only now
      obtain ⟨-, rfl, rfl⟩ := World.newTable_eq_ok_iff.mp hw
      show m.world.tables.length < (m.world.tables ++ [cells.toArray]).length
      rw [List.length_append]
      exact Nat.lt_succ_self _
  changeWorld hf :=
    .changeWorld (fun _ _ hw hs h => (World.Edit.settles (hs ▸ hf) hw).of_ok h)
      fun _ fault hw hs h =>
        hallowed fault (Fault.isOrdinary_of_isOwn ((World.Edit.settles (hs ▸ hf) hw).of_error h))
  noMemory _ _ _ _ := .of_same (fun _ => rfl) fun _ _ _ => trivial
  forever _ _ _ _ _ _ _ hact := .forever hact _
  lift hact := hact
  andThen hact hnext := .bind hact hnext
  bindName name _ assigned h := .modifyFrame fun _ hf => hf.bind name h assigned
  withinBlock hact := .withinBlock hact
  withinCall {s} name act act' _ hact m hm hs := by
    dsimp only
    split
    · refine ⟨hm, Extent.le_of_eq hs.symm, ?_⟩
      exact .inl (hallowed _ rfl)
    · exact Run.Closed.withinCall (hact s rfl) name m hm hs

section

variable {allowed : Fault → Prop} (hallowed : ∀ fault, fault.isOrdinary = true → allowed fault)
  (lib : Library) (fuel : Nat) {s : Extent}
include hallowed

theorem eval_closed (node : Node) :
    Run.Closed allowed s (fun e v => v.InRange e) (eval lib fuel node) := by
  induction fuel generalizing node s with
  | zero => exact .of_same (fun _ => rfl) fun _ _ _ => trivial
  | succ fuel ih =>
    have hev : (handleJudgement allowed).Evaluates (eval lib fuel) (eval lib fuel) :=
      fun _ node _ => ih node
    exact (handle_logic hallowed lib).evalStep (s := s) hev (fun _ _ => trivial)
      (fun _ _ _ _ _ _ => trivial) (Nat.le_refl fuel)

theorem eval_evaluates : (handleJudgement allowed).Evaluates (eval lib fuel) (eval lib fuel) :=
  fun _ node _ => eval_closed hallowed lib fuel node

theorem call_closed (name : String) {args : List Value} (hargs : ∀ v ∈ args, v.InRange s) :
    Run.Closed allowed s (fun e v => v.InRange e) (call lib fuel name args) :=
  (handle_logic hallowed lib).callRoutine (eval_evaluates hallowed lib fuel) name hargs

theorem applyValue_closed (callee : Value) {args : List Value}
    (hargs : ∀ v ∈ args, v.InRange s) :
    Run.Closed allowed s (fun e v => v.InRange e) (applyValue lib fuel callee args) :=
  (handle_logic hallowed lib).callValue (eval_evaluates hallowed lib fuel) callee hargs

omit hallowed in
theorem isOrdinary_of_parse {source : String} {f : Failure} (h : parse source = .error f) :
    f.fault.isOrdinary = true := by
  rw [parse] at h
  rcases hp : parseNodes source with e | nodes
  · rw [hp] at h
    cases h
    rfl
  · rw [hp] at h
    cases h

theorem evalSource_closed (source : String) :
    Run.Closed allowed s (fun e v => v.InRange e) (evalSource lib fuel source) := by
  rw [evalSource]
  split
  · have hev : (handleJudgement allowed).Evaluates (evalValue lib fuel) (evalValue lib fuel) :=
      fun _ node _ => .collapse (eval_closed hallowed lib fuel node)
    exact .atTopLevel ((handle_logic hallowed lib).evalBody hev fun _ _ => trivial)
  · rename_i f hparse
    refine .of_same (fun _ => rfl) fun _ _ _ => ?_
    exact .inl (hallowed f.fault (isOrdinary_of_parse hparse))

end

end TextAdventure
