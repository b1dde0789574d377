import TextAdventure.Proofs.Program.Transition

/-!
The routines that are active when something fails.

A failure arises without a place, and each routine that it leaves adds its name.  The calls that are
refused at the greatest depth add the name of a routine that was never entered.  Evaluation with the
list of active routines carried along says at once what is pieced together on the way out, and it
can be watched on the way in.

* `Run.among` — an action carried out while some routines are active;
* `callAmong`, `evalAmong` — calls and evaluation with the active routines carried along;
* `Failure.Left`, `Failure.Noted` — what a failure says in one kind of run and in the other;
* `callAmong_left` — the failures of a call say the same, and are counted against the limit;
* `call_active_routines` — so calls never nest too deep, and the stack of a failure lists the
  routines that were active when it arose.

Design notes.  A run is watched through an alarm that may do anything at all.  If the watched run
ends like the plain one whatever the alarm does, then the alarm was never raised.
-/

namespace TextAdventure

/-! ### Carrying the active routines along -/

/-- Gives a failure the active routines, unless it says already where it arose. -/
def Failure.raisedAmong (f : Failure) (active : List String) : Failure :=
  match f.context with
  | some _ => f
  | none => { f with context := some ⟨none, active⟩ }

section

variable (lib : Library) (base : Nat) (alarm : Run Value)

/-- Carries out an action while some routines are active, the innermost first, that were entered
with `base` calls under way.  A failure that arises is given the active routines.  The alarm is
raised if these are not the calls under way, or if they are more than the library allows. -/
def Run.among (active : List String) (act : Run Value) : Run Value := fun m =>
  if m.depth = base + active.length ∧ m.depth ≤ lib.maxDepth then
    match act m with
    | (.failed f, ended) => (.failed (f.raisedAmong active), ended)
    | ended => ended
  else alarm m

/-- Calls a routine by name while others are active.  Nothing is noted when the call ends. -/
def callAmong (ev : List String → Node → Run Value) (active : List String) (name : String)
    (args : List Value) : Run Value :=
  match lib.routines.lookup? name with
  | none => Run.fail (.noSuchRoutine (canonical name))
  | some routine => fun m =>
    let entered := routine.name :: active
    if lib.maxDepth ≤ m.depth then
      (.failed ⟨.callDepthExceeded lib.maxDepth, some ⟨none, entered⟩⟩, m)
    else
      let body := Run.among lib base alarm entered (runRoutine (ev entered) routine args)
      let (outcome, ended) :=
        body { m with frame := .forRoutine routine.name, depth := m.depth + 1 }
      (outcome, { ended with frame := m.frame, depth := ended.depth - 1 })

/-- Calls what a value names while some routines are active. -/
def applyAmong (ev : List String → Node → Run Value) (active : List String) (callee : Value)
    (args : List Value) : Run Value :=
  match callee with
  | .routine name => callAmong lib base alarm ev active name args
  | .atom name => callAmong lib base alarm ev active name args
  | .string name => callAmong lib base alarm ev active name args
  | other => Run.fail (.typeMismatch "APPLY" "routine" other.typeName)

/-- What a node is worth, evaluated while some routines are active. -/
def evalAmong : Nat → List String → Node → Run Value
  | 0, _, _ => Run.exhaust .fuel
  | fuel + 1, active, node =>
    Run.among lib base alarm active
      (evalStepWith lib fuel (evalAmong fuel active)
        (applyAmong lib base alarm (evalAmong fuel) active) node)

end

/-! ### What a failure says -/

/-- Two forms of a failure that has left a routine, called where `room` more calls could be nested.
The one tells the routines that it has left; the other tells also those that are active. -/
inductive Failure.Left (room : Nat) (name : String) (active : List String) :
    Failure → Failure → Prop
  | intro {fault : Fault} {inner : List String} (hroom : inner.length ≤ room)
      (hdeep : inner.length = room ↔ fault.isTooDeep = true) :
      Left room name active ⟨fault, some ⟨none, inner ++ [name]⟩⟩
        ⟨fault, some ⟨none, inner ++ name :: active⟩⟩

/-- Two forms of a failure: one of the innermost routine's own, or one that has left a routine
called there. -/
inductive Failure.Noted (room : Nat) (active : List String) : Failure → Failure → Prop
  | own {fault : Fault} (h : fault.isTooDeep = false) {c : Option Context}
      (hc : c = none ∨ c = some ⟨none, active⟩) : Noted room active ⟨fault, none⟩ ⟨fault, c⟩
  | left {name : String} {f f' : Failure} (h : Failure.Left room name active f f') :
      Noted room active f f'

/-- Two outcomes are the same but for the forms of a failure. -/
inductive Outcome.Alike {α : Type} (V : α → Prop) (F : Failure → Failure → Prop) :
    Outcome α → Outcome α → Prop
  | done {a : α} (h : V a) : Alike V F (.done a) (.done a)
  | signal (s : Signal) : Alike V F (.signal s) (.signal s)
  | failed {f f' : Failure} (h : F f f') : Alike V F (.failed f) (.failed f')
  | exhausted (what : Shortage) : Alike V F (.exhausted what) (.exhausted what)

theorem Outcome.Alike.mono {α : Type} {V : α → Prop} {F G : Failure → Failure → Prop}
    {o o' : Outcome α} (h : Outcome.Alike V F o o') (hFG : ∀ f f', F f f' → G f f') :
    Outcome.Alike V G o o' := by
  cases h with
  | done h => exact .done h
  | signal s => exact .signal s
  | failed h => exact .failed (hFG _ _ h)
  | exhausted what => exact .exhausted what

/-- At some depth two actions leave the same machine, again at that depth, and outcomes that are
alike. -/
def Run.Alike {α : Type} (depth : Nat) (F : Failure → Failure → Prop) (V : α → Prop)
    (act act' : Run α) : Prop :=
  ∀ m, m.depth = depth → ∃ o o' ended, act m = (o, ended) ∧ act' m = (o', ended) ∧
    ended.depth = depth ∧ Outcome.Alike V F o o'

namespace Run.Alike

variable {α β : Type} {depth : Nat} {F : Failure → Failure → Prop} {V : α → Prop} {U : β → Prop}

theorem yields {act : Run α} {f : Machine → α} {g : Machine → Machine}
    (h : ∀ m, act m = (.done (f m), g m)) (hdepth : ∀ m, (g m).depth = m.depth)
    (hvalue : ∀ m, V (f m)) : Run.Alike depth F V act act :=
  fun m hm => ⟨_, _, g m, h m, h m, (hdepth m).trans hm, .done (hvalue m)⟩

theorem raises {act : Run α} {s : Machine → Signal} (h : ∀ m, act m = (.signal (s m), m)) :
    Run.Alike depth F V act act :=
  fun m hm => ⟨_, _, m, h m, h m, hm, .signal (s m)⟩

theorem fails {fault : Fault} (h : F (.ofFault fault) (.ofFault fault)) :
    Run.Alike depth F V (Run.fail fault) (Run.fail fault) :=
  fun m hm => ⟨_, _, m, rfl, rfl, hm, .failed h⟩

theorem exhausts (what : Shortage) : Run.Alike depth F V (Run.exhaust what) (Run.exhaust what) :=
  fun m hm => ⟨_, _, m, rfl, rfl, hm, .exhausted what⟩

theorem makeTable (cells : List Value)
    (h : F (.ofFault (.outOfHandles "tables")) (.ofFault (.outOfHandles "tables"))) :
    Run.Alike depth F (fun _ => True) (TextAdventure.makeTable cells)
      (TextAdventure.makeTable cells) := by
  intro m hm
  rw [TextAdventure.makeTable]
  cases hw : m.world.newTable cells with
  | ok made => exact ⟨_, _, _, rfl, rfl, hm, .done trivial⟩
  | error fault => exact ⟨_, _, m, rfl, rfl, hm, .failed ((World.newTable_eq_error hw).1 ▸ h)⟩

theorem changeWorld {change : World → Except Fault World}
    (h : ∀ w fault, change w = .error fault → F (.ofFault fault) (.ofFault fault)) :
    Run.Alike depth F (fun _ => True) (Run.changeWorld change) (Run.changeWorld change) := by
  intro m hm
  rw [Run.changeWorld]
  rcases hworld : change m.world with fault | w
  · exact ⟨_, _, m, rfl, rfl, hm, .failed (h m.world fault hworld)⟩
  · exact ⟨_, _, _, rfl, rfl, hm, .done trivial⟩

theorem bind {act act' : Run α} {next next' : α → Run β} (hact : Run.Alike depth F V act act')
    (hnext : ∀ a, V a → Run.Alike depth F U (next a) (next' a)) :
    Run.Alike depth F U (act >>= next) (act' >>= next') := by
  intro m hm
  obtain ⟨o, o', ended, h, h', hdepth, halike⟩ := hact m hm
  cases halike with
  | done hv =>
    rw [bind_of_done h, bind_of_done h']
    exact hnext _ hv ended hdepth
  | signal s =>
    rw [bind_of_signal h, bind_of_signal h']
    exact ⟨_, _, _, rfl, rfl, hdepth, .signal s⟩
  | failed hf =>
    rw [bind_of_failed h, bind_of_failed h']
    exact ⟨_, _, _, rfl, rfl, hdepth, .failed hf⟩
  | exhausted what =>
    rw [bind_of_exhausted h, bind_of_exhausted h']
    exact ⟨_, _, _, rfl, rfl, hdepth, .exhausted what⟩

theorem forever {act act' : Run Unit} (hact : Run.Alike depth F (fun _ => True) act act')
    (fuel : Nat) :
    Run.Alike depth F (fun _ => True) (Run.forever act fuel) (Run.forever act' fuel) := by
  induction fuel with
  | zero => exact .exhausts .fuel
  | succ fuel ih =>
    rw [Run.forever_succ, Run.forever_succ]
    exact hact.bind fun _ _ => ih

variable {act act' : Run Value}

theorem collapse (hact : Run.Alike depth F (fun _ => True) act act') :
    Run.Alike depth F (fun _ => True) act.collapse act'.collapse := by
  intro m hm
  obtain ⟨o, o', ended, h, h', hdepth, halike⟩ := hact m hm
  rw [Run.collapse, Run.collapse, h, h']
  cases halike with
  | done hv => exact ⟨_, _, _, rfl, rfl, hdepth, .done trivial⟩
  | signal s => exact ⟨_, _, _, rfl, rfl, hdepth, .done trivial⟩
  | failed hf => exact ⟨_, _, _, rfl, rfl, hdepth, .failed hf⟩
  | exhausted what => exact ⟨_, _, _, rfl, rfl, hdepth, .exhausted what⟩

theorem withinBlock (hact : Run.Alike depth F (fun _ => True) act act') :
    Run.Alike depth F (fun _ => True) act.withinBlock act'.withinBlock := by
  intro m hm
  obtain ⟨o, o', ended, h, h', hdepth, halike⟩ :=
    hact { m with frame := m.frame.openBlock } hm
  rw [Run.withinBlock, Run.withinBlock, h, h']
  cases halike with
  | done hv => exact ⟨_, _, _, rfl, rfl, hdepth, .done trivial⟩
  | signal s =>
    cases s with
    | leave value => exact ⟨_, _, _, rfl, rfl, hdepth, .done trivial⟩
    | _ => exact ⟨_, _, _, rfl, rfl, hdepth, .signal _⟩
  | failed hf => exact ⟨_, _, _, rfl, rfl, hdepth, .failed hf⟩
  | exhausted what => exact ⟨_, _, _, rfl, rfl, hdepth, .exhausted what⟩

end Run.Alike

/-! ### Faults of the operations -/

/-- A calculation does not fail for want of depth. -/
def Attempt.Shallow {α : Type} (e : Except Fault α) : Prop :=
  ∀ fault, e = .error fault → fault.isTooDeep = false

namespace Attempt.Shallow

variable {α β : Type}

theorem ok (a : α) : Attempt.Shallow (.ok a) := nofun

theorem error {fault : Fault} (h : fault.isTooDeep = false) :
    Attempt.Shallow (.error fault : Except Fault α) := by
  rintro _ ⟨⟩
  exact h

theorem bind {e : Except Fault α} {next : α → Except Fault β} (he : Attempt.Shallow e)
    (hnext : ∀ a, Attempt.Shallow (next a)) : Attempt.Shallow (e >>= next) := by
  cases e with
  | ok a => exact hnext a
  | error fault => exact error (he fault rfl)

theorem existing (w : World) (o : ObjectId) : Attempt.Shallow (w.existing o) := by
  rw [World.existing]
  split
  · exact ok _
  · exact error rfl

theorem table (w : World) (t : TableId) : Attempt.Shallow (w.table t) := by
  rw [World.table]
  split
  · exact ok _
  · exact error rfl

theorem cellIndex (index : Int) (length : Nat) :
    Attempt.Shallow (World.cellIndex index length) := by
  rw [World.cellIndex]
  split
  · exact ok _
  · exact error rfl

theorem tableGet (w : World) (t : TableId) (index : Int) :
    Attempt.Shallow (w.tableGet t index) :=
  (table w t).bind fun _ => (cellIndex index _).bind fun _ => ok _

theorem changeFlag (w : World) (o : ObjectId) (name : String)
    (change : FlagSet → Nat → FlagSet) : Attempt.Shallow (w.changeFlag o name change) := by
  refine (existing w o).bind fun _ => ?_
  split
  · exact ok _
  · exact ok _

theorem move (w : World) (o container : ObjectId) : Attempt.Shallow (w.move o container) := by
  refine (existing w o).bind fun _ => (existing w container).bind fun _ => ?_
  split
  · exact error rfl
  · exact ok _

theorem edit {good : Value → Prop} {f : World → Except Fault World} (hf : World.Edit good f)
    (w : World) : Attempt.Shallow (f w) := by
  cases hf with
  | setFlag _ name => exact changeFlag w _ name _
  | clearFlag _ name => exact changeFlag w _ name _
  | putProperty _ _ _ => exact (existing w _).bind fun _ => ok _
  | move _ _ => exact move w _ _
  | remove _ => exact (existing w _).bind fun _ => ok _
  | tablePut _ index _ =>
    exact (table w _).bind fun _ => (cellIndex index _).bind fun _ => ok _

end Attempt.Shallow

/-! ### The two runs of a node -/

/-- The judgement that two runs at some depth are the same but for what their failures say. -/
def activeJudgement (limit depth : Nat) (active : List String) : Judgement where
  Stage := Unit
  Later _ _ := True
  Deeper _ _ := True
  At _ _ := True
  Good _ _ := True
  Known _ _ := True
  Fails fault := fault.isTooDeep = false
  Permits _ := True
  Rounds := Eq
  Holds _ V act act' := Run.Alike depth (Failure.Noted (limit - depth) active) (V ()) act act'
  Head _ V act act' := Run.Alike depth (Failure.Noted (limit - depth) active) (V ()) act act'

theorem active_logic (lib : Library) (depth : Nat) (active : List String) :
    OperationLogic (activeJudgement lib.maxDepth depth active) lib where
  good_later _ _ _ := trivial
  good_plain _ := trivial
  good_list := ⟨fun _ _ _ => trivial, fun _ => trivial⟩
  known_later _ _ _ := trivial
  known_item _ _ _ := trivial
  fails h := Fault.isTooDeep_of_isOwn h
  gives _ := .of_forall (fun _ => trivial) _
  cell_fault {_ m} _ {t} _ {index fault} hf := Attempt.Shallow.tableGet m.world t index fault hf
  pure ha := .yields (fun _ => rfl) (fun _ => rfl) fun _ => ha
  bind hact hnext := .bind hact (hnext () trivial)
  fail h := .fails (.own h (.inl rfl))
  returnTrue := .raises fun _ => rfl
  returnFalse := .raises fun _ => rfl
  leaveWith _ := .raises (leaveWith_apply _)
  collapse hact := .collapse hact
  read _ hf := .yields (fun _ => rfl) (fun _ => rfl) fun m => hf m trivial
  print _ := .yields (fun _ => rfl) (fun _ => rfl) fun _ => trivial
  random _ := .yields (fun _ => rfl) (fun _ => rfl) fun _ => trivial
  quit := .yields (fun _ => rfl) (fun _ => rfl) fun _ => trivial
  assign _ _ _ := .yields (fun _ => rfl) (fun _ => rfl) fun _ => trivial
  setGlobal _ _ _ := .yields (fun _ => rfl) (fun _ => rfl) fun _ => trivial
  makeTable _ := .makeTable _ (.own rfl (.inl rfl))
  changeWorld hf := .changeWorld fun w fault h =>
    .own (Attempt.Shallow.edit hf w fault h) (.inl rfl)
  noMemory _ _ _ _ := .exhausts _
  forever _ _ _ _ fuel _ hfuel hact := hfuel ▸ .forever (hact () trivial) fuel
  lift hact := hact
  andThen hact hnext := .bind hact (hnext () trivial)
  bindName _ _ _ _ := .yields (fun _ => rfl) (fun _ => rfl) fun _ => trivial
  withinBlock hact := .withinBlock hact

/-! ### The two runs of a call -/

/-- A failure that arises among the active routines is given them. -/
theorem Failure.Noted.raisedAmong {room : Nat} {active : List String} {f f' : Failure}
    (h : Failure.Noted room active f f') : Failure.Noted room active f (f'.raisedAmong active) := by
  cases h with
  | own h hc =>
    rcases hc with rfl | rfl
    · exact .own h (.inr rfl)
    · exact .own h (.inr rfl)
  | left h =>
    cases h with
    | intro hroom hdeep => exact .left (.intro hroom hdeep)

/-- A failure that leaves a routine tells its name, and so it does if it was given all the names. -/
theorem Failure.Noted.inRoutine {room : Nat} {name : String} {active : List String}
    {f f' : Failure} (h : Failure.Noted room (name :: active) f f') :
    Failure.Left (room + 1) name active (f.inRoutine name) (f'.raisedAmong (name :: active)) := by
  cases h with
  | @own fault h c hc =>
    have hleft : Failure.Left (room + 1) name active ⟨fault, some ⟨none, [] ++ [name]⟩⟩
        ⟨fault, some ⟨none, [] ++ name :: active⟩⟩ :=
      .intro (Nat.zero_le _) (by simp [h])
    rcases hc with rfl | rfl
    · exact hleft
    · exact hleft
  | left h =>
    cases h with
    | @intro fault inner hroom hdeep =>
      rename_i callee
      have hleft : Failure.Left (room + 1) name active
          ⟨fault, some ⟨none, (inner ++ [callee]) ++ [name]⟩⟩
          ⟨fault, some ⟨none, (inner ++ [callee]) ++ name :: active⟩⟩ :=
        .intro (by simpa using hroom) (by simpa using hdeep)
      rw [List.append_assoc inner [callee] (name :: active)] at hleft
      exact hleft

/-- A call that is refused has no room for another one. -/
theorem Failure.Left.refused {room : Nat} (h : room = 0) (limit : Nat) (name : String)
    (active : List String) :
    Failure.Left room name active ((Failure.ofFault (.callDepthExceeded limit)).inRoutine name)
      ⟨.callDepthExceeded limit, some ⟨none, name :: active⟩⟩ := by
  have hleft : Failure.Left room name active
      ⟨.callDepthExceeded limit, some ⟨none, [] ++ [name]⟩⟩
      ⟨.callDepthExceeded limit, some ⟨none, [] ++ name :: active⟩⟩ :=
    .intro (Nat.zero_le _) (by simp [h, Fault.isTooDeep])
  exact hleft

section

variable {lib : Library} {base depth : Nat} {alarm : Run Value} {active : List String}
  (hactive : depth = base + active.length) (hdepth : depth ≤ lib.maxDepth)
include hactive hdepth

/-- Where the active routines are the calls under way, the alarm is not raised. -/
theorem Run.Alike.among {act act' : Run Value}
    (h : Run.Alike depth (Failure.Noted (lib.maxDepth - depth) active) (fun _ => True) act act') :
    Run.Alike depth (Failure.Noted (lib.maxDepth - depth) active) (fun _ => True) act
      (Run.among lib base alarm active act') := by
  intro m hm
  obtain ⟨o, o', ended, hact, hact', hended, halike⟩ := h m hm
  rw [Run.among, if_pos ⟨hm.trans hactive, hm.trans_le hdepth⟩, hact']
  cases halike with
  | done hv => exact ⟨_, _, _, hact, rfl, hended, .done trivial⟩
  | signal s => exact ⟨_, _, _, hact, rfl, hended, .signal s⟩
  | failed hf => exact ⟨_, _, _, hact, rfl, hended, .failed hf.raisedAmong⟩
  | exhausted what => exact ⟨_, _, _, hact, rfl, hended, .exhausted what⟩

/-- What is known of the nodes of a routine that is called is known of the call. -/
theorem callAmong_left {ev : Node → Run Value} {ev' : List String → Node → Run Value}
    {name : String} {routine : Routine} (hroutine : lib.routines.lookup? name = some routine)
    (hev : depth < lib.maxDepth → (activeJudgement lib.maxDepth (depth + 1)
      (routine.name :: active)).Evaluates ev (ev' (routine.name :: active)))
    (args : List Value) :
    Run.Alike depth (Failure.Left (lib.maxDepth - depth) routine.name active) (fun _ => True)
      (callRoutine lib ev name args) (callAmong lib base alarm ev' active name args) := by
  intro m hm
  rw [callRoutine, callAmong, hroutine]
  dsimp only
  split
  · exact ⟨_, _, m, rfl, rfl, hm, .failed (.refused (by omega) _ _ _)⟩
  · have hlt : depth < lib.maxDepth := by omega
    have hrun : Run.Alike (depth + 1)
        (Failure.Noted (lib.maxDepth - (depth + 1)) (routine.name :: active)) (fun _ => True)
        (runRoutine ev routine args) (runRoutine (ev' (routine.name :: active)) routine args) :=
      (active_logic lib (depth + 1) (routine.name :: active)).runRoutine (s := ()) (hev hlt)
        (fun _ _ => trivial) fun _ _ => trivial
    have hroom : lib.maxDepth - depth = lib.maxDepth - (depth + 1) + 1 := by omega
    obtain ⟨o, o', ended, h, h', hended, halike⟩ :=
      hrun { m with frame := .forRoutine routine.name, depth := m.depth + 1 } (by rw [hm])
    have hcalls : m.depth + 1 = base + (routine.name :: active).length ∧
        m.depth + 1 ≤ lib.maxDepth := by
      rw [List.length_cons]
      omega
    have hback : ended.depth - 1 = depth := by omega
    rw [Run.withinCall, Run.among, if_pos hcalls, h, h']
    cases halike with
    | done hv => exact ⟨_, _, _, rfl, rfl, hback, .done trivial⟩
    | signal s => exact ⟨_, _, _, rfl, rfl, hback, .signal s⟩
    | failed hf => exact ⟨_, _, _, rfl, rfl, hback, .failed (hroom ▸ hf.inRoutine)⟩
    | exhausted what => exact ⟨_, _, _, rfl, rfl, hback, .exhausted what⟩

/-- A call among active routines that knows of no routine by the name fails at once, and any other
one says what has been left. -/
theorem callAmong_noted {ev : Node → Run Value} {ev' : List String → Node → Run Value}
    (hev : ∀ callee, depth < lib.maxDepth → (activeJudgement lib.maxDepth (depth + 1)
      (callee :: active)).Evaluates ev (ev' (callee :: active)))
    (name : String) (args : List Value) :
    Run.Alike depth (Failure.Noted (lib.maxDepth - depth) active) (fun _ => True)
      (callRoutine lib ev name args) (callAmong lib base alarm ev' active name args) := by
  cases hroutine : lib.routines.lookup? name with
  | none =>
    rw [callRoutine, callAmong, hroutine]
    exact .fails (.own rfl (.inl rfl))
  | some routine =>
    intro m hm
    obtain ⟨o, o', ended, h, h', hended, halike⟩ :=
      callAmong_left hactive hdepth hroutine (hev routine.name) args m hm
    exact ⟨o, o', ended, h, h', hended, halike.mono fun _ _ => .left⟩

theorem applyAmong_noted {ev : Node → Run Value} {ev' : List String → Node → Run Value}
    (hev : ∀ callee, depth < lib.maxDepth → (activeJudgement lib.maxDepth (depth + 1)
      (callee :: active)).Evaluates ev (ev' (callee :: active)))
    (callee : Value) (args : List Value) :
    Run.Alike depth (Failure.Noted (lib.maxDepth - depth) active) (fun _ => True)
      (callValue lib ev callee args) (applyAmong lib base alarm ev' active callee args) := by
  cases callee with
  | routine name => exact callAmong_noted hactive hdepth hev name args
  | atom name => exact callAmong_noted hactive hdepth hev name args
  | string name => exact callAmong_noted hactive hdepth hev name args
  | _ => exact .fails (.own rfl (.inl rfl))

/-- Evaluation with the active routines carried along ends like plain evaluation, and the alarm is
not raised. -/
theorem evalAmong_noted (fuel : Nat) (node : Node) :
    Run.Alike depth (Failure.Noted (lib.maxDepth - depth) active) (fun _ => True)
      (eval lib fuel node) (evalAmong lib base alarm fuel active node) := by
  induction fuel generalizing depth active node with
  | zero => exact .exhausts .fuel
  | succ fuel ih =>
    -- a routine called here is one more that is active, one call deeper
    have hinner : ∀ callee, depth < lib.maxDepth → (activeJudgement lib.maxDepth (depth + 1)
        (callee :: active)).Evaluates (eval lib fuel)
          (evalAmong lib base alarm fuel (callee :: active)) :=
      fun callee hlt _ node _ => ih (by rw [List.length_cons]; omega) hlt node
    refine Run.Alike.among hactive hdepth ?_
    show Run.Alike depth _ _ (evalStep lib fuel (eval lib fuel) node) _
    rw [← evalStepWith_callValue]
    exact (active_logic lib depth active).evalStepWith (s := ())
      (fun _ part _ => ih hactive hdepth part)
      (fun _ callee values _ => applyAmong_noted hactive hdepth hinner callee values)
      (fun _ _ => trivial) (fun _ _ _ _ _ _ => trivial) rfl

end

/-! ### Calls from outside -/

/-- A table made by defining routines one after another. -/
inductive RoutineTable.Made : RoutineTable → Prop
  | empty : Made .empty
  | define {routines : RoutineTable} (h : Made routines) (routine : Routine) :
      Made (routines.define routine)

/-- A routine is found under its own name only. -/
theorem RoutineTable.Made.name_eq {routines : RoutineTable} (h : routines.Made) {name : String}
    {routine : Routine} (hroutine : routines.lookup? name = some routine) :
    routine.name = canonical name := by
  induction h with
  | empty => cases hroutine
  | define _ defined ih =>
    rw [lookup?, RoutineTable.define, NameMap.get?_insert] at hroutine
    split at hroutine
    · cases hroutine
      exact Eq.symm ‹_›
    · exact ih hroutine

theorem Fault.isTooDeep_iff {fault : Fault} :
    fault.isTooDeep = true ↔ ∃ limit, fault = .callDepthExceeded limit := by
  constructor
  · intro h
    cases fault with
    | callDepthExceeded limit => exact ⟨limit, rfl⟩
    | _ => cases h
  · rintro ⟨limit, rfl⟩
    rfl

/-- While a routine is called, calls never nest deeper than the library allows, whatever the routine
does; and a failure lists the routines that were active when it arose, the innermost first.  So a
call fails because there is no routine of the name, or else with a stack that ends in the canonical
name of the routine called and is no longer than the calls that could be nested, the refused one
included; it is as long as that exactly if calls were nested too deep. -/
theorem call_active_routines {lib : Library} (hlib : lib.routines.Made) (fuel : Nat)
    (name : String) (args : List Value) {m : Machine} (hdepth : m.depth ≤ lib.maxDepth) :
    (∀ alarm : Run Value,
      callAmong lib m.depth alarm (evalAmong lib m.depth alarm fuel) [] name args m =
        call lib fuel name args m) ∧
    ∀ f ended, call lib fuel name args m = (.failed f, ended) →
      (lib.routines.lookup? name = none ∧ f = .ofFault (.noSuchRoutine (canonical name))) ∨
      ∃ stack, f.context = some ⟨none, stack⟩ ∧ stack.getLast? = some (canonical name) ∧
        stack.length ≤ lib.maxDepth - m.depth + 1 ∧
        (stack.length = lib.maxDepth - m.depth + 1 ↔
          ∃ limit, f.fault = .callDepthExceeded limit) := by
  cases hroutine : lib.routines.lookup? name with
  | none =>
    have hcall : call lib fuel name args m =
        (.failed (.ofFault (.noSuchRoutine (canonical name))), m) := by
      rw [call, callRoutine, hroutine]
      rfl
    refine ⟨fun alarm => ?_, fun f ended h => ?_⟩
    · rw [hcall, callAmong, hroutine]
      rfl
    · cases hcall.symm.trans h
      exact .inl ⟨rfl, rfl⟩
  | some routine =>
    have hnone : m.depth = m.depth + ([] : List String).length := rfl
    have hone : m.depth + 1 = m.depth + [routine.name].length := rfl
    have hleft : ∀ alarm, Run.Alike m.depth (Failure.Left (lib.maxDepth - m.depth) routine.name [])
        (fun _ => True) (call lib fuel name args)
        (callAmong lib m.depth alarm (evalAmong lib m.depth alarm fuel) [] name args) :=
      fun alarm => callAmong_left hnone hdepth hroutine
        (fun hlt _ node _ => evalAmong_noted hone hlt fuel node) args
    refine ⟨fun alarm => ?_, fun f ended h => .inr ?_⟩
    · obtain ⟨o, o', ended, hcall, hamong, -, halike⟩ := hleft alarm m rfl
      rw [hcall, hamong]
      cases halike with
      | done _ => rfl
      | signal _ => rfl
      | failed hf => cases hf; rfl
      | exhausted _ => rfl
    · obtain ⟨o, o', ended', hcall, -, -, halike⟩ := hleft (Run.exhaust .fuel) m rfl
      cases hcall.symm.trans h
      cases halike with
      | failed hf =>
        cases hf with
        | @intro fault inner hroom hdeep =>
          refine ⟨inner ++ [routine.name], rfl, ?_, ?_, ?_⟩
          · rw [List.getLast?_concat, hlib.name_eq hroutine]
          · simpa using hroom
          · simpa [← Fault.isTooDeep_iff] using hdeep

/-- Room for two calls, and four routines.  `PING` and `PONG` call each other, one of them by way of
a default, and `OUTER` has a default that comes to a slip in `SLIP`. -/
def Library.pingPong : Library where
  operations := .ofList [("APPLY", .control .apply)]
  routines :=
    let ping : Routine := ⟨"PING", [], [], [.form "pong" [] default]⟩
    let again : Node := .form "APPLY" [.atom "Ping" default] default
    let pong : Routine := ⟨"PONG", [⟨"NEXT", some again⟩], [], []⟩
    let outer : Routine := ⟨"OUTER", [⟨"X", some (.form "SLIP" [] default)⟩], [], []⟩
    let slip : Routine := ⟨"SLIP", [], [], [.form "typo" [] default]⟩
    (((RoutineTable.define .empty ping).define pong).define outer).define slip
  maxDepth := 2
  actorGlobal := "WINNER"
  maxCells := Library.defaultCells

/-- A call of `PING` is stopped at the third call, and all three names are told.  The slip is told
with the two routines that are active there. -/
theorem call_active_routines_pingPong :
    let stopped : Outcome Value × Machine :=
      (.failed ⟨.callDepthExceeded 2, some ⟨none, ["PING", "PONG", "PING"]⟩⟩, .initial .ones)
    let slipped : Outcome Value × Machine :=
      (.failed ⟨.unsupportedOperation "TYPO", some ⟨none, ["SLIP", "OUTER"]⟩⟩, .initial .ones)
    Library.pingPong.routines.Made ∧ (Machine.initial .ones).depth ≤ Library.pingPong.maxDepth ∧
    call .pingPong 9 "ping" [] (.initial .ones) = stopped ∧
    call .pingPong 9 "outer" [] (.initial .ones) = slipped ∧
    ∀ alarm,
      callAmong .pingPong 0 alarm (evalAmong .pingPong 0 alarm 9) [] "ping" [] (.initial .ones) =
        stopped ∧
      callAmong .pingPong 0 alarm (evalAmong .pingPong 0 alarm 9) [] "outer" [] (.initial .ones) =
        slipped := by
  have hmade : Library.pingPong.routines.Made :=
    .define (.define (.define (.define .empty _) _) _) _
  have hdepth : (Machine.initial .ones).depth ≤ Library.pingPong.maxDepth := by decide
  refine ⟨hmade, hdepth, rfl, rfl, fun alarm => ⟨?_, ?_⟩⟩
  · exact ((call_active_routines hmade 9 "ping" [] hdepth).1 alarm).trans rfl
  · exact ((call_active_routines hmade 9 "outer" [] hdepth).1 alarm).trans rfl

end TextAdventure
