import TextAdventure.Program.Eval
import TextAdventure.Proofs.World.Change

/-!
Rules for reasoning about evaluation.

Evaluation is put together from a few actions on the machine by sequencing, blocks and calls.
A judgement says something about an action at a stage of a run.  Where the single actions
satisfy it, and sequencing, blocks and calls keep it, every evaluation satisfies it.

* `Judgement` — a statement about actions, with the stages at which it is made, the values it
  lets pass and the nodes it covers;
* `OperationLogic`, `ProgramLogic` — the rules a judgement has to obey, without and with calls;
* `evalStepWith` — the work on a node, with the calls it makes left open;
* `OperationLogic.evalStepWith` — the judgement of a node follows from that of its parts and of
  calls;
* `ProgramLogic.callRoutine` — the judgement of a call follows from that of the routine's nodes;
* `ProgramLogic.evalStep` — so that of a node follows from that of its parts.

Design notes.  A judgement compares two runs of one program, so that it can say what more fuel
changes; one that speaks of a single run ignores the second.  The operations are gone through
once, here, so a law of evaluation is a judgement with its rules and needs no case analysis of
the operations.
-/

namespace TextAdventure

/-! ### Values, faults and nodes -/

/-- Whether a value is no handle and holds no other values. -/
def Value.isPlain : Value → Bool
  | .object _ => false
  | .table _ => false
  | .list _ => false
  | _ => true

/-- Whether a program can bring about a fault although everything it refers to is there. -/
def Fault.isOrdinary : Fault → Bool
  | .noSuchObject _ => false
  | .unknownTable _ => false
  | .outOfHandles _ => false
  | .unfinishedInput => false
  | .input _ => false
  | _ => true

/-- Whether a fault is that of a call nested too deep. -/
def Fault.isTooDeep : Fault → Bool
  | .callDepthExceeded _ => true
  | _ => false

/-- Whether an operation can bring about a fault by itself, although everything it refers to is
there. -/
def Fault.isOwn (fault : Fault) : Bool := fault.isOrdinary && !fault.isTooDeep

theorem Fault.isOrdinary_of_isOwn {fault : Fault} (h : fault.isOwn = true) :
    fault.isOrdinary = true :=
  (Bool.and_eq_true_iff.mp h).1

theorem Fault.isTooDeep_of_isOwn {fault : Fault} (h : fault.isOwn = true) :
    fault.isTooDeep = false := by
  simpa using (Bool.and_eq_true_iff.mp h).2

/-- The nodes of which a node is made. -/
def Node.parts : Node → List Node
  | .form _ args _ => args
  | .list items _ => items
  | .marked _ body _ => [body]
  | _ => []

/-- The nodes of a routine: the defaults of its parameters and locals, and its body. -/
def Routine.nodes (routine : Routine) : List Node :=
  (routine.params ++ routine.locals).filterMap (·.default) ++ routine.body

/-- A calculation ends with a result that has a property, or with a fault of its own. -/
def Settles {α : Type} (V : α → Prop) : Except Fault α → Prop
  | .ok a => V a
  | .error fault => fault.isOwn = true

theorem Settles.of_ok {α : Type} {V : α → Prop} {e : Except Fault α} (he : Settles V e) {a : α}
    (h : e = .ok a) : V a := by
  subst h
  exact he

theorem Settles.of_error {α : Type} {V : α → Prop} {e : Except Fault α} (he : Settles V e)
    {fault : Fault} (h : e = .error fault) : fault.isOwn = true := by
  subst h
  exact he

theorem Settles.bind {α β : Type} {V : α → Prop} {U : β → Prop} {e : Except Fault α}
    {next : α → Except Fault β} (he : Settles V e) (hnext : ∀ a, V a → Settles U (next a)) :
    Settles U (e >>= next) := by
  cases e with
  | ok a => exact hnext a he
  | error fault => exact he

theorem Settles.map {α β : Type} {V : α → Prop} {U : β → Prop} {e : Except Fault α} {f : α → β}
    (he : Settles V e) (hf : ∀ a, V a → U (f a)) : Settles U (e.map f) := by
  cases e with
  | ok a => exact hf a he
  | error fault => exact he

/-- The changes of the world that programs ask for and that may be refused.  The objects, tables
and values in them satisfy a given property. -/
inductive World.Edit (good : Value → Prop) : (World → Except Fault World) → Prop
  | setFlag {o : ObjectId} (ho : good (.object o)) (name : String) :
      Edit good (·.setFlag o name)
  | clearFlag {o : ObjectId} (ho : good (.object o)) (name : String) :
      Edit good (·.clearFlag o name)
  | putProperty {o : ObjectId} (ho : good (.object o)) (name : String) {value : Value}
      (hvalue : good value) : Edit good (·.putProperty o name value)
  | move {o container : ObjectId} (ho : good (.object o)) (hc : good (.object container)) :
      Edit good (·.move o container)
  | remove {o : ObjectId} (ho : good (.object o)) : Edit good (·.remove o)
  | tablePut {t : TableId} (ht : good (.table t)) (index : Int) {value : Value}
      (hvalue : good value) : Edit good (·.tablePut t index value)

theorem World.Edit.programChange {good : Value → Prop} {f : World → Except Fault World}
    (hf : World.Edit good f) {w w' : World} (h : f w = .ok w') : World.ProgramChange w w' := by
  cases hf with
  | setFlag => exact .setFlag h
  | clearFlag => exact .clearFlag h
  | putProperty => exact .putProperty h
  | move => exact .move h
  | remove => exact .remove h
  | tablePut => exact .tablePut h

/-- Every value that a program can read off a machine has a given property. -/
structure Machine.Gives (good : Value → Prop) (m : Machine) : Prop where
  local? {name : String} {v : Value} (h : m.frame.get? name = some v) : good v
  global? {name : String} {v : Value} (h : m.world.global? name = some v) : good v
  lookup? {name : String} {o : ObjectId} (h : m.world.lookup? name = some o) : good (.object o)
  property (o : ObjectId) (name : String) : good (m.world.property o name)
  parent {o p : ObjectId} (h : m.world.parent? o = some p) : good (.object p)
  child {o c : ObjectId} (h : c ∈ m.world.children o) : good (.object c)
  cell {t : TableId} {index : Int} {v : Value} (h : m.world.tableGet t index = .ok v) : good v

theorem Machine.Gives.of_forall {good : Value → Prop} (h : ∀ v, good v) (m : Machine) :
    m.Gives good :=
  ⟨fun _ => h _, fun _ => h _, fun _ => h _, fun _ _ => h _, fun _ => h _, fun _ => h _,
    fun _ => h _⟩

/-! ### Sequences -/

section

variable {α β : Type} {act : Run α} {next : α → Run β} {m m' : Machine}

theorem Run.bind_of_done {a : α} (h : act m = (.done a, m')) :
    (act >>= next) m = next a m' := by
  show Run.bind act next m = _
  rw [Run.bind, h]

theorem Run.bind_of_signal {s : Signal} (h : act m = (.signal s, m')) :
    (act >>= next) m = (.signal s, m') := by
  show Run.bind act next m = _
  rw [Run.bind, h]

theorem Run.bind_of_failed {f : Failure} (h : act m = (.failed f, m')) :
    (act >>= next) m = (.failed f, m') := by
  show Run.bind act next m = _
  rw [Run.bind, h]

theorem Run.bind_of_exhausted {what : Shortage} (h : act m = (.exhausted what, m')) :
    (act >>= next) m = (.exhausted what, m') := by
  show Run.bind act next m = _
  rw [Run.bind, h]

end

/-- An action never ends with a signal. -/
def Run.Quiet {α : Type} (act : Run α) : Prop := ∀ m s, (act m).1 ≠ .signal s

/-- Run on some machine, an action ends with a given value. -/
def Run.Yields {α : Type} (act : Run α) (a : α) : Prop := ∃ m, (act m).1 = .done a

theorem Run.Yields.of_bind {α β : Type} {act : Run α} {next : α → Run β} {b : β}
    (h : (act >>= next).Yields b) : ∃ a, act.Yields a ∧ (next a).Yields b := by
  obtain ⟨m, hm⟩ := h
  rcases hact : act m with ⟨a | s | f | _, m'⟩
  · rw [bind_of_done hact] at hm
    exact ⟨a, ⟨m, by rw [hact]⟩, m', hm⟩
  · rw [bind_of_signal hact] at hm
    cases hm
  · rw [bind_of_failed hact] at hm
    cases hm
  · rw [bind_of_exhausted hact] at hm
    cases hm

/-- A round of a loop, and then the rest of it. -/
theorem Run.forever_succ (act : Run Unit) (fuel : Nat) :
    Run.forever act (fuel + 1) = act >>= fun _ => Run.forever act fuel := by
  funext m
  show _ = Run.bind act (fun _ => Run.forever act fuel) m
  simp only [Run.forever, Run.bind]
  rcases act m with ⟨_ | _ | _ | _, _⟩ <;> rfl

/-! ### Judgements -/

/-- A statement about actions.  `Holds s V act act'` says of an action, and of its counterpart
in a second run, what happens when it is run at stage `s`; if it yields a value, then one for
which `V` holds at the stage reached.  `Head` is a weaker statement for the heads of blocks and
routines, where names are bound.

A run goes from stage to `Later` stages, and a call is carried out at a `Deeper` one; `At` are
the machines that a stage allows, `Good` the values, `Known` the nodes that are spoken of, and
`Fails` the faults; `Permits` are the operations that forms may call, and `Rounds` says how the
bounds on the rounds of loops compare. -/
structure Judgement where
  Stage : Type
  Later : Stage → Stage → Prop
  Deeper : Stage → Stage → Prop
  At : Stage → Machine → Prop
  Good : Stage → Value → Prop
  Known : Stage → Node → Prop
  Fails : Fault → Prop
  Permits : Operation → Prop
  Rounds : Nat → Nat → Prop := (· ≤ ·)
  Holds {α : Type} (s : Stage) (V : Stage → α → Prop) (act act' : Run α) : Prop
  Head {α : Type} (s : Stage) (V : Stage → α → Prop) (act act' : Run α) : Prop

namespace Judgement

variable {J : Judgement}

/-- Nothing is said about a value. -/
def Any (J : Judgement) {α : Type} (_ : J.Stage) (_ : α) : Prop := True

def GoodAll (J : Judgement) (s : J.Stage) (values : List Value) : Prop :=
  ∀ v ∈ values, J.Good s v

def GoodObject (J : Judgement) (s : J.Stage) (o : ObjectId) : Prop := J.Good s (.object o)

def GoodTable (J : Judgement) (s : J.Stage) (t : TableId) : Prop := J.Good s (.table t)

def KnownAll (J : Judgement) (s : J.Stage) (nodes : List Node) : Prop :=
  ∀ node ∈ nodes, J.Known s node

theorem KnownAll.head {s : J.Stage} {node : Node} {nodes : List Node}
    (h : J.KnownAll s (node :: nodes)) : J.Known s node :=
  h node List.mem_cons_self

theorem KnownAll.tail {s : J.Stage} {node : Node} {nodes : List Node}
    (h : J.KnownAll s (node :: nodes)) : J.KnownAll s nodes :=
  fun n hn => h n (List.mem_cons_of_mem node hn)

theorem KnownAll.tableFlags {s : J.Stage} {args : List Node} (hn : J.KnownAll s args) :
    J.KnownAll s (tableFlags args).2 := by
  rw [TextAdventure.tableFlags.eq_def]
  split
  · split
    · exact hn.tail
    · exact hn
  · exact hn

/-- The judgement holds of evaluating any node it speaks of. -/
def Evaluates (J : Judgement) (ev ev' : Node → Run Value) : Prop :=
  ∀ s node, J.Known s node → J.Holds s J.Good (ev node) (ev' node)

end Judgement

/-- The rules that a judgement has to obey to hold of what a node does by itself, calls apart.
What programs read off a machine never shows what it has printed. -/
structure OperationLogic (J : Judgement) (lib : Library) : Prop where
  good_later {s t : J.Stage} (h : J.Later s t) {v : Value} (hv : J.Good s v) : J.Good t v
  good_plain {s : J.Stage} {v : Value} (h : v.isPlain = true) : J.Good s v
  good_list {s : J.Stage} {values : List Value} :
    J.Good s (.list values) ↔ ∀ v ∈ values, J.Good s v
  known_later {s t : J.Stage} (h : J.Later s t) {node : Node} (hn : J.Known s node) :
    J.Known t node
  known_item {s : J.Stage} {items : List Node} {span : Span}
    (h : J.Known s (.list items span)) {item : Node} (hi : item ∈ items) : J.Known s item
  fails {fault : Fault} (h : fault.isOwn = true) : J.Fails fault
  gives {s : J.Stage} {m : Machine} (h : J.At s m) : m.Gives (J.Good s)
  cell_fault {s : J.Stage} {m : Machine} (h : J.At s m) {t : TableId} (ht : J.Good s (.table t))
    {index : Int} {fault : Fault} (hf : m.world.tableGet t index = .error fault) : J.Fails fault
  pure {s : J.Stage} {α : Type} {V : J.Stage → α → Prop} {a : α} (h : V s a) :
    J.Holds s V (pure a) (pure a)
  bind {s : J.Stage} {α β : Type} {V : J.Stage → α → Prop} {U : J.Stage → β → Prop}
    {act act' : Run α} {next next' : α → Run β} (hact : J.Holds s V act act')
    (hnext : ∀ t, J.Later s t → ∀ a, V t a → J.Holds t U (next a) (next' a)) :
    J.Holds s U (act >>= next) (act' >>= next')
  fail {s : J.Stage} {α : Type} {V : J.Stage → α → Prop} {fault : Fault} (h : J.Fails fault) :
    J.Holds s V (Run.fail fault) (Run.fail fault)
  returnTrue {s : J.Stage} : J.Holds s J.Good (Run.raise .returnTrue) (Run.raise .returnTrue)
  returnFalse {s : J.Stage} : J.Holds s J.Good (Run.raise .returnFalse) (Run.raise .returnFalse)
  leaveWith {s : J.Stage} {value : Value} (h : J.Good s value) :
    J.Holds s J.Good (leaveWith value) (leaveWith value)
  collapse {s : J.Stage} {act act' : Run Value} (hact : J.Holds s J.Good act act') :
    J.Holds s J.Good act.collapse act'.collapse
  read {s : J.Stage} {α : Type} {V : J.Stage → α → Prop} {f : Machine → α}
    (hblind : ∀ m text, f { m with output := text } = f m) (h : ∀ m, J.At s m → V s (f m)) :
    J.Holds s V (Run.read f) (Run.read f)
  print {s : J.Stage} (text : String) : J.Holds s J.Any (Run.print text) (Run.print text)
  random {s : J.Stage} (limit : Int64) : J.Holds s J.Any (Run.random limit) (Run.random limit)
  quit {s : J.Stage} : J.Holds s J.Any (Run.modify fun m => { m with quit := true })
    (Run.modify fun m => { m with quit := true })
  assign {s : J.Stage} (name : String) {value : Value} (h : J.Good s value) :
    J.Holds s J.Any (Run.modifyFrame (·.assign name value))
      (Run.modifyFrame (·.assign name value))
  setGlobal {s : J.Stage} (name : String) {value : Value} (h : J.Good s value) :
    J.Holds s J.Any (Run.modifyWorld (·.setGlobal name value))
      (Run.modifyWorld (·.setGlobal name value))
  makeTable {s : J.Stage} {cells : List Value} (h : J.GoodAll s cells) :
    J.Holds s J.Good (makeTable cells) (makeTable cells)
  changeWorld {s : J.Stage} {f : World → Except Fault World}
    (hf : World.Edit (J.Good s) f) : J.Holds s J.Any (Run.changeWorld f) (Run.changeWorld f)
  noMemory (hpermits : J.Permits (.table .fill)) {s : J.Stage} {cells : Nat}
    (h : lib.maxCells < cells) :
    J.Holds s J.Good (Run.exhaust (.memory cells)) (Run.exhaust (.memory cells))
  forever (hpermits : J.Permits (.control .loop)) {s : J.Stage} {act act' : Run Unit}
    {fuel fuel' : Nat} (hfuel : J.Rounds fuel fuel')
    (hact : ∀ t, J.Later s t → J.Holds t J.Any act act') :
    J.Holds s J.Good (Run.forever act fuel) (Run.forever act' fuel')
  lift {s : J.Stage} {α : Type} {V : J.Stage → α → Prop} {act act' : Run α}
    (hact : J.Holds s V act act') : J.Head s V act act'
  andThen {s : J.Stage} {α β : Type} {V : J.Stage → α → Prop} {U : J.Stage → β → Prop}
    {act act' : Run α} {next next' : α → Run β} (hact : J.Head s V act act')
    (hnext : ∀ t, J.Later s t → ∀ a, V t a → J.Head t U (next a) (next' a)) :
    J.Head s U (act >>= next) (act' >>= next')
  bindName {s : J.Stage} (name : String) {value : Value} (assigned : Bool)
    (h : J.Good s value) : J.Head s J.Any (Run.modifyFrame (·.bind name value assigned))
      (Run.modifyFrame (·.bind name value assigned))
  withinBlock {s : J.Stage} {act act' : Run Value} (hact : J.Head s J.Good act act') :
    J.Holds s J.Good act.withinBlock act'.withinBlock

/-- The rules that a judgement has to obey: those of the operations, and that of a call. -/
structure ProgramLogic (J : Judgement) (lib : Library) : Prop extends OperationLogic J lib where
  good_deeper {s t : J.Stage} (h : J.Deeper s t) {v : Value} (hv : J.Good s v) : J.Good t v
  known_routine {s t : J.Stage} (h : J.Deeper s t) {name : String} {routine : Routine}
    (hr : lib.routines.lookup? name = some routine) {node : Node} (hn : node ∈ routine.nodes) :
    J.Known t node
  withinCall {s : J.Stage} (name : String) {act act' : Run Value} (hquiet : act.Quiet)
    (hact : ∀ t, J.Deeper s t → J.Head t J.Good act act') :
    J.Holds s J.Good
      (fun m =>
        if lib.maxDepth ≤ m.depth then
          (.failed ((Failure.ofFault (.callDepthExceeded lib.maxDepth)).inRoutine name), m)
        else act.withinCall name m)
      (fun m =>
        if lib.maxDepth ≤ m.depth then
          (.failed ((Failure.ofFault (.callDepthExceeded lib.maxDepth)).inRoutine name), m)
        else act'.withinCall name m)

/-! ### Calls are quiet -/

namespace Run

theorem Quiet.bind {α β : Type} {act : Run α} {next : α → Run β} (hact : act.Quiet)
    (hnext : ∀ a, (next a).Quiet) : (act >>= next).Quiet := by
  intro m s
  rcases hm : act m with ⟨a | s' | f | _, m'⟩
  · rw [bind_of_done hm]
    exact hnext a m' s
  · exact absurd (congrArg Prod.fst hm) (hact m s')
  · rw [bind_of_failed hm]
    exact nofun
  · rw [bind_of_exhausted hm]
    exact nofun

theorem quiet_collapse (act : Run Value) : act.collapse.Quiet := by
  intro m s
  rw [Run.collapse]
  rcases act m with ⟨_ | _ | _ | _, _⟩ <;> exact nofun

theorem quiet_modifyFrame (f : Frame → Frame) : (Run.modifyFrame f).Quiet := fun _ _ => nofun

end Run

theorem bindParams_quiet (ev : Node → Run Value) (params : List Parameter) (args : List Value) :
    (bindParams ev params args).Quiet := by
  induction params generalizing args with
  | nil => exact fun _ _ => nofun
  | cons param params ih =>
    cases args with
    | cons value values => exact .bind (Run.quiet_modifyFrame _) fun _ => ih values
    | nil =>
      refine .bind ?_ fun _ => ih []
      rw [bindDefault]
      split
      · exact .bind (Run.quiet_collapse _) fun _ => Run.quiet_modifyFrame _
      · exact Run.quiet_modifyFrame _

/-- A routine ends with a value or fails: no signal leaves it. -/
theorem runRoutine_quiet (ev : Node → Run Value) (routine : Routine) (args : List Value) :
    (runRoutine ev routine args).Quiet :=
  .bind (bindParams_quiet ev _ _) fun _ =>
    .bind (bindParams_quiet ev _ _) fun _ => Run.quiet_collapse _

/-! ### Calculations settle -/

theorem settles_of_isPlain {V : Value → Prop} (hplain : ∀ v : Value, v.isPlain = true → V v)
    (n : Numeric) : V n.toValue := by
  cases n with
  | int n => exact hplain _ rfl
  | float x => exact hplain _ rfl

theorem expectNumber_settles (operation : String) (v : Value) :
    Settles (fun _ => True) (expectNumber operation v) := by
  cases v with
  | int n => exact trivial
  | float x => exact trivial
  | _ => exact rfl

theorem expectNumbers_settles (operation : String) (vs : List Value) :
    Settles (fun _ => True) (expectNumbers operation vs) := by
  induction vs with
  | nil => exact trivial
  | cons v vs ih =>
    exact (expectNumber_settles operation v).bind fun _ _ => ih.bind fun _ _ => trivial

theorem FoldOp.apply_settles (op : FoldOp) (a b : Numeric) :
    Settles (fun _ => True) (op.apply a b) := by
  have hints : ∀ x y, Settles (fun _ => True) (op.onInts x y) := by
    intro x y
    cases op with
    | div =>
      rw [onInts]
      split
      · exact rfl
      · exact trivial
    | _ => exact trivial
  have hfloats : ∀ x y, Settles (fun _ => True) (op.onFloats x y) := by
    intro x y
    cases op with
    | div =>
      rw [onFloats]
      split
      · exact rfl
      · exact trivial
    | _ => exact trivial
  rw [apply.eq_def]
  split
  · exact (hints _ _).map fun _ _ => trivial
  · exact (hfloats _ _).map fun _ _ => trivial

theorem FoldOp.accumulate_settles (op : FoldOp) (ns : List Numeric) (total : Numeric) :
    Settles (fun _ => True) (op.accumulate total ns) := by
  induction ns generalizing total with
  | nil => exact trivial
  | cons n ns ih =>
    have hfirst := op.apply_settles total n
    rw [accumulate]
    generalize op.apply total n = first at hfirst ⊢
    cases first with
    | ok next => exact ih next
    | error fault => exact hfirst

section

variable {V : Value → Prop} (hplain : ∀ v : Value, v.isPlain = true → V v)
include hplain

theorem foldNumbers_settles (op : FoldOp) (vs : List Value) : Settles V (foldNumbers op vs) := by
  refine (expectNumbers_settles op.name vs).bind fun ns _ => ?_
  refine Settles.bind (V := fun _ => True) ?_ fun n _ => settles_of_isPlain hplain n
  rw [combineNumbers.eq_def]
  split
  · exact trivial
  · exact op.apply_settles _ _
  · exact op.accumulate_settles _ _

theorem extremeOf_settles (which : Extreme) (vs : List Value) :
    Settles V (extremeOf which vs) := by
  refine (expectNumbers_settles which.name vs).bind fun ns _ => ?_
  cases ns with
  | nil => exact rfl
  | cons first rest => exact settles_of_isPlain hplain _

theorem absoluteValue_settles (v : Value) : Settles V (absoluteValue v) := by
  cases v with
  | int n => exact hplain _ rfl
  | float x => exact hplain _ rfl
  | _ => exact rfl

end

theorem intRemainder_settles (a b : Int64) : Settles (fun _ => True) (intRemainder a b) := by
  rw [intRemainder]
  split
  · exact rfl
  · exact trivial

theorem compareValues_settles (operation : String) (a b : Value) :
    Settles (fun _ => True) (compareValues operation a b) := by
  rw [compareValues.eq_def]
  split
  · exact trivial
  · split
    · exact trivial
    · exact rfl
    · exact rfl

theorem expectChar_settles (v : Value) : Settles (fun _ => True) (expectChar v) := by
  rw [expectChar.eq_def]
  split
  · exact trivial
  · split
    · exact trivial
    · exact rfl
  · exact rfl

theorem World.mem_of_childAfter {o c : ObjectId} {cs : List ObjectId}
    (h : World.childAfter o cs = some c) : c ∈ cs := by
  induction cs with
  | nil => cases h
  | cons first rest ih =>
    rw [World.childAfter] at h
    split at h
    · exact List.mem_cons_of_mem _ (List.mem_of_mem_head? h)
    · exact List.mem_cons_of_mem _ (ih h)

/-- What a name refers to is something that the machine gives out. -/
theorem Machine.Gives.resolve {good : Value → Prop} {m : Machine} (hm : m.Gives good)
    (hplain : ∀ v : Value, v.isPlain = true → good v) (lib : Library) (name : String) :
    Settles good (resolve lib m.world m.frame name) := by
  rw [TextAdventure.resolve]
  split
  · exact hm.local? ‹_›
  split
  · exact hm.global? ‹_›
  split
  · exact hm.lookup? ‹_›
  split
  · exact hplain _ rfl
  split
  · exact hplain _ rfl
  split
  · exact hplain _ rfl
  · exact rfl

/-! ### Calls left open -/

/-- Calls the first of some values with the others. -/
def applyWith (ev : Node → Run Value) (call : Value → List Value → Run Value)
    (args : List Node) : Run Value := do
  match ← evalAll ev args with
  | [] => Run.fail (.arity "APPLY" 1 0)
  | callee :: values => call callee values

/-- What a form does, given a way to evaluate its parts and a way to call what a value names. -/
def dispatchWith (lib : Library) (fuel : Nat) (ev : Node → Run Value)
    (call : Value → List Value → Run Value) (operator : String) (args : List Node) : Run Value :=
  match lib.operations.lookup? operator with
  | some op =>
    if args.length < op.minimum then Run.fail (.arity op.name op.minimum args.length)
    else if op = .control .apply then applyWith ev call args
    else op.perform lib fuel ev args
  | none =>
    match lib.routines.lookup? operator with
    | some _ => do
      let values ← evalAll ev args
      call (.routine operator) values
    | none => Run.fail (.unsupportedOperation (canonical operator))

/-- The work on a node, given a way to evaluate its parts and a way to call what a value names. -/
def evalStepWith (lib : Library) (fuel : Nat) (ev : Node → Run Value)
    (call : Value → List Value → Run Value) (node : Node) : Run Value :=
  match node with
  | .form operator args _ => dispatchWith lib fuel ev call operator args
  | node => evalStep lib fuel ev node

/-- Nothing but `APPLY` and the name of a routine calls anything. -/
theorem evalStepWith_callValue (lib : Library) (fuel : Nat) (ev : Node → Run Value)
    (node : Node) :
    evalStepWith lib fuel ev (callValue lib ev) node = evalStep lib fuel ev node := by
  cases node with
  | form operator args span =>
    show dispatchWith lib fuel ev (callValue lib ev) operator args =
      dispatch lib fuel ev operator args
    rw [dispatchWith, dispatch]
    cases lib.operations.lookup? operator with
    | none => rfl
    | some op =>
      dsimp only
      by_cases hop : op = .control .apply
      · subst hop
        rw [if_pos rfl]
        rfl
      · rw [if_neg hop]
  | _ => rfl

/-! ### The operations -/

namespace OperationLogic

variable {J : Judgement} {lib : Library} {s : J.Stage}

section

variable (L : OperationLogic J lib)
include L

theorem knownAll_later {t : J.Stage} (h : J.Later s t) {nodes : List Node}
    (hn : J.KnownAll s nodes) : J.KnownAll t nodes :=
  fun node hnode => L.known_later h (hn node hnode)

theorem knownAll_items {items : List Node} {span : Span} (h : J.Known s (.list items span)) :
    J.KnownAll s items :=
  fun _ hi => L.known_item h hi

theorem goodAll_splice {node : Node} {value : Value} {rest : List Value}
    (hvalue : J.Good s value) (hrest : J.GoodAll s rest) :
    J.GoodAll s (spliceValue node value rest) := by
  rw [spliceValue.eq_def]
  split
  · intro v hv
    rcases List.mem_append.mp hv with hv | hv
    · exact L.good_list.mp hvalue v hv
    · exact hrest v hv
  · intro v hv
    rcases List.mem_cons.mp hv with rfl | hv
    · exact hvalue
    · exact hrest v hv

theorem failOwn {α : Type} {V : J.Stage → α → Prop} {fault : Fault}
    (h : fault.isOwn = true) : J.Holds s V (Run.fail fault) (Run.fail fault) :=
  L.fail (L.fails h)

theorem ofExcept {α : Type} {V : J.Stage → α → Prop} {e : Except Fault α}
    (h : Settles (V s) e) : J.Holds s V (Run.ofExcept e) (Run.ofExcept e) := by
  cases e with
  | ok a => exact L.pure h
  | error fault => exact L.failOwn h

theorem readWorld {α : Type} {V : J.Stage → α → Prop} {f : World → α}
    (h : ∀ m, J.At s m → V s (f m.world)) : J.Holds s V (Run.readWorld f) (Run.readWorld f) :=
  L.read (fun _ _ => rfl) h

/-- Something read off the world, whatever it is. -/
theorem look {α : Type} (f : World → α) :
    J.Holds s J.Any (Run.readWorld f) (Run.readWorld f) :=
  L.readWorld fun _ _ => trivial

theorem expectInt (operation : String) (value : Value) :
    J.Holds s J.Any (expectInt operation value) (expectInt operation value) := by
  cases value with
  | int n => exact L.pure trivial
  | _ => exact L.failOwn rfl

theorem expectObject (operation : String) {value : Value} (h : J.Good s value) :
    J.Holds s J.GoodObject (expectObject operation value) (expectObject operation value) := by
  cases value with
  | object o => exact L.pure h
  | _ => exact L.failOwn rfl

theorem expectTable (operation : String) {value : Value} (h : J.Good s value) :
    J.Holds s J.GoodTable (expectTable operation value) (expectTable operation value) := by
  cases value with
  | table t => exact L.pure h
  | _ => exact L.failOwn rfl

theorem expectName (operation : String) (value : Value) :
    J.Holds s J.Any (expectName operation value) (expectName operation value) := by
  cases value with
  | atom name => exact L.pure trivial
  | string name => exact L.pure trivial
  | _ => exact L.failOwn rfl

theorem resolveName (name : String) :
    J.Holds s J.Good (resolveName lib name) (resolveName lib name) := by
  refine L.bind (V := fun t e => Settles (J.Good t) e) ?_ fun t _ e he => L.ofExcept he
  exact L.read (fun _ _ => rfl) fun m hm => (L.gives hm).resolve (fun _ => L.good_plain) lib name

theorem good_ofObject? {o : Option ObjectId} (h : ∀ p, o = some p → J.Good s (.object p)) :
    J.Good s (.ofObject? o) := by
  cases o with
  | none => exact L.good_plain rfl
  | some p => exact h p rfl

end

mutual

/-- Data made from source text holds no handle. -/
theorem good_quote (L : OperationLogic J lib) : ∀ node : Node, J.Good s (quote node)
  | .form operator args _ => by
    rw [quote]
    refine L.good_list.mpr fun v hv => ?_
    rcases List.mem_cons.mp hv with rfl | hv
    · exact L.good_plain rfl
    · exact L.goodAll_quoteAll args v hv
  | .list items _ => by
    rw [quote]
    exact L.good_list.mpr (L.goodAll_quoteAll items)
  | .empty _ => L.good_plain rfl
  | .atom _ _ => L.good_plain rfl
  | .reference _ _ _ => L.good_plain rfl
  | .literal value _ => by cases value <;> exact L.good_plain rfl
  | .marked _ body _ => by
    rw [quote]
    exact L.good_quote body

theorem goodAll_quoteAll (L : OperationLogic J lib) :
    ∀ nodes : List Node, J.GoodAll s (quoteAll nodes)
  | [] => nofun
  | node :: nodes => by
    intro v hv
    rw [quoteAll] at hv
    rcases List.mem_cons.mp hv with rfl | hv
    · exact L.good_quote node
    · exact L.goodAll_quoteAll nodes v hv

end

section

variable {ev ev' : Node → Run Value} (L : OperationLogic J lib) (hev : J.Evaluates ev ev')
include L hev

/-! ### Several nodes -/

theorem evalAll {nodes : List Node} (hn : J.KnownAll s nodes) :
    J.Holds s J.GoodAll (evalAll ev nodes) (evalAll ev' nodes) := by
  induction nodes generalizing s with
  | nil => exact L.pure nofun
  | cons node nodes ih =>
    refine L.bind (hev s node hn.head) fun t ht value hvalue => ?_
    refine L.bind (ih (L.knownAll_later ht hn.tail)) fun u hu values hvalues => ?_
    exact L.pure (L.goodAll_splice (L.good_later hu hvalue) hvalues)

theorem evalLast {nodes : List Node} (hn : J.KnownAll s nodes) {last : Value}
    (hlast : J.Good s last) :
    J.Holds s J.Good (evalLast ev last nodes) (evalLast ev' last nodes) := by
  induction nodes generalizing s last with
  | nil => exact L.pure hlast
  | cons node nodes ih =>
    exact L.bind (hev s node hn.head) fun t ht value => ih (L.knownAll_later ht hn.tail)

theorem evalBody {nodes : List Node} (hn : J.KnownAll s nodes) :
    J.Holds s J.Good (evalBody ev nodes) (evalBody ev' nodes) :=
  L.evalLast hev hn (L.good_plain rfl)

theorem evalEach {nodes : List Node} (hn : J.KnownAll s nodes) :
    J.Holds s J.Any (evalEach ev nodes) (evalEach ev' nodes) := by
  induction nodes generalizing s with
  | nil => exact L.pure trivial
  | cons node nodes ih =>
    exact L.bind (hev s node hn.head) fun t ht _ _ => ih (L.knownAll_later ht hn.tail)

theorem objectArg (operation : String) {node : Node} (hn : J.Known s node) :
    J.Holds s J.GoodObject (objectArg ev operation node) (objectArg ev' operation node) :=
  L.bind (hev s node hn) fun _ _ _ hvalue => L.expectObject operation hvalue

theorem nameArg (operation : String) {node : Node} (hn : J.Known s node) :
    J.Holds s J.Any (nameArg ev operation node) (nameArg ev' operation node) :=
  L.bind (hev s node hn) fun _ _ value _ => L.expectName operation value

theorem literalName (operation : String) {node : Node} (hn : J.Known s node) :
    J.Holds s J.Any (literalName ev operation node) (literalName ev' operation node) := by
  rw [TextAdventure.literalName, TextAdventure.literalName]
  split
  · exact L.pure trivial
  · exact L.nameArg hev operation hn

/-! ### Calls -/

theorem bindDefault {param : Parameter}
    (hparam : ∀ node, param.default = some node → J.Known s node) :
    J.Head s J.Any (bindDefault ev param) (bindDefault ev' param) := by
  rw [TextAdventure.bindDefault, TextAdventure.bindDefault]
  split
  · rename_i node hdefault
    have hnode := L.collapse (hev s node (hparam node hdefault))
    exact L.andThen (L.lift hnode) fun _ _ _ hvalue => L.bindName _ _ hvalue
  · exact L.bindName _ _ (L.good_plain rfl)

theorem bindParams {params : List Parameter}
    (hparams : J.KnownAll s (params.filterMap (·.default))) {args : List Value}
    (hargs : J.GoodAll s args) :
    J.Head s J.Any (bindParams ev params args) (bindParams ev' params args) := by
  induction params generalizing s args with
  | nil => exact L.lift (L.pure trivial)
  | cons param params ih =>
    have hfirst : ∀ node, param.default = some node → J.Known s node := fun node hdefault =>
      hparams node (List.mem_filterMap.mpr ⟨param, List.mem_cons_self, hdefault⟩)
    have hrest : J.KnownAll s (params.filterMap (·.default)) := by
      intro node hnode
      obtain ⟨p, hp, hdefault⟩ := List.mem_filterMap.mp hnode
      exact hparams node (List.mem_filterMap.mpr ⟨p, List.mem_cons_of_mem _ hp, hdefault⟩)
    cases args with
    | nil =>
      exact L.andThen (L.bindDefault hev hfirst) fun t ht _ _ =>
        ih (L.knownAll_later ht hrest) nofun
    | cons value values =>
      refine L.andThen (L.bindName _ _ (hargs value List.mem_cons_self)) fun t ht _ _ => ?_
      exact ih (L.knownAll_later ht hrest) fun v hv =>
        L.good_later ht (hargs v (List.mem_cons_of_mem _ hv))

theorem runRoutine {routine : Routine} (hroutine : J.KnownAll s routine.nodes)
    {args : List Value} (hargs : J.GoodAll s args) :
    J.Head s J.Good (runRoutine ev routine args) (runRoutine ev' routine args) := by
  have hheads : J.KnownAll s ((routine.params ++ routine.locals).filterMap (·.default)) :=
    fun node hn => hroutine node (List.mem_append_left _ hn)
  rw [List.filterMap_append] at hheads
  have hparams : J.KnownAll s (routine.params.filterMap (·.default)) :=
    fun node hn => hheads node (List.mem_append_left _ hn)
  have hlocals : J.KnownAll s (routine.locals.filterMap (·.default)) :=
    fun node hn => hheads node (List.mem_append_right _ hn)
  have hbody : J.KnownAll s routine.body :=
    fun node hn => hroutine node (List.mem_append_right _ hn)
  refine L.andThen (L.bindParams hev hparams hargs) fun t ht _ _ => ?_
  refine L.andThen (L.bindParams hev (L.knownAll_later ht hlocals) nofun) fun u hu _ _ => ?_
  exact L.lift (L.collapse (L.evalBody hev (L.knownAll_later hu (L.knownAll_later ht hbody))))

/-! ### Control -/

theorem firstClause {clauses : List Node} (hn : J.KnownAll s clauses) :
    J.Holds s J.Good (firstClause ev clauses) (firstClause ev' clauses) := by
  induction clauses generalizing s with
  | nil => exact L.pure (L.good_plain rfl)
  | cons clause clauses ih =>
    rw [TextAdventure.firstClause.eq_def ev, TextAdventure.firstClause.eq_def ev']
    split
    · exact L.pure (L.good_plain rfl)
    · rename_i guard body span rest heq
      cases heq
      have hitems := L.knownAll_items hn.head
      refine L.bind (hev s guard hitems.head) fun t ht test htest => ?_
      split
      · split
        · exact L.pure htest
        · exact L.evalBody hev (L.knownAll_later ht hitems.tail)
      · exact ih (L.knownAll_later ht hn.tail)
    · exact L.failOwn rfl

theorem conjunction {nodes : List Node} (hn : J.KnownAll s nodes) {last : Value}
    (hlast : J.Good s last) :
    J.Holds s J.Good (conjunction ev last nodes) (conjunction ev' last nodes) := by
  induction nodes generalizing s last with
  | nil => exact L.pure hlast
  | cons node nodes ih =>
    refine L.bind (hev s node hn.head) fun t ht value hvalue => ?_
    split
    · exact ih (L.knownAll_later ht hn.tail) hvalue
    · exact L.pure hvalue

theorem disjunction {nodes : List Node} (hn : J.KnownAll s nodes) {last : Value}
    (hlast : J.Good s last) :
    J.Holds s J.Good (disjunction ev last nodes) (disjunction ev' last nodes) := by
  induction nodes generalizing s last with
  | nil => exact L.pure hlast
  | cons node nodes ih =>
    refine L.bind (hev s node hn.head) fun t ht value hvalue => ?_
    split
    · exact L.pure hvalue
    · exact ih (L.knownAll_later ht hn.tail) hvalue

theorem bindEntry {entry : Node} (hn : J.Known s entry) :
    J.Head s J.Any (bindEntry ev entry) (bindEntry ev' entry) := by
  rw [TextAdventure.bindEntry.eq_def ev, TextAdventure.bindEntry.eq_def ev']
  split
  · exact L.bindName _ _ (L.good_plain rfl)
  · have hitems := L.knownAll_items hn
    exact L.andThen (L.lift (hev s _ hitems.tail.head)) fun _ _ _ hvalue => L.bindName _ _ hvalue
  · exact L.lift (L.failOwn rfl)
  · exact L.lift (L.pure trivial)
  · exact L.lift (L.failOwn rfl)

theorem bindEntries {entries : List Node} (hn : J.KnownAll s entries) :
    J.Head s J.Any (bindEntries ev entries) (bindEntries ev' entries) := by
  induction entries generalizing s with
  | nil => exact L.lift (L.pure trivial)
  | cons entry entries ih =>
    exact L.andThen (L.bindEntry hev hn.head) fun t ht _ _ => ih (L.knownAll_later ht hn.tail)

theorem bindBlock {args : List Node} (hn : J.KnownAll s args) :
    J.Head s J.KnownAll (bindBlock ev args) (bindBlock ev' args) := by
  rw [TextAdventure.bindBlock.eq_def ev, TextAdventure.bindBlock.eq_def ev']
  split
  · refine L.andThen (L.bindEntries hev (L.knownAll_items hn.head)) fun t ht _ _ => ?_
    exact L.lift (L.pure (L.knownAll_later ht hn.tail))
  · exact L.lift (L.pure hn)

theorem control {op : ControlOp} (hop : op ≠ .apply) (hpermits : J.Permits (.control op))
    {fuel fuel' : Nat} (hfuel : J.Rounds fuel fuel') {args : List Node} (hn : J.KnownAll s args) :
    J.Holds s J.Good (op.perform lib fuel ev args) (op.perform lib fuel' ev' args) := by
  rw [ControlOp.perform.eq_def op lib fuel, ControlOp.perform.eq_def op lib fuel']
  split
  · exact L.firstClause hev hn
  · exact L.conjunction hev hn (L.good_plain rfl)
  · exact L.disjunction hev hn (L.good_plain rfl)
  · exact L.bind (hev s _ hn.head) fun _ _ _ _ => L.pure (L.good_plain rfl)
  · refine L.withinBlock (L.andThen (L.bindBlock hev hn) fun t _ body hbody => L.lift ?_)
    exact L.forever hpermits hfuel fun u hu => L.evalEach hev (L.knownAll_later hu hbody)
  · exact L.withinBlock (L.andThen (L.bindBlock hev hn) fun t _ body hbody =>
      L.lift (L.evalBody hev hbody))
  · exact L.leaveWith (L.good_plain rfl)
  · exact L.bind (hev s _ hn.head) fun _ _ _ hvalue => L.leaveWith hvalue
  · exact L.returnTrue
  · exact L.returnFalse
  · exact absurd rfl hop
  · exact L.failOwn rfl

/-! ### Variables and numbers -/

theorem binding (op : VariableOp) {args : List Node} (hn : J.KnownAll s args) :
    J.Holds s J.Good (op.perform lib ev args) (op.perform lib ev' args) := by
  rw [VariableOp.perform.eq_def op lib ev, VariableOp.perform.eq_def op lib ev']
  split
  · refine L.bind (L.literalName hev _ hn.head) fun t ht name _ => ?_
    refine L.bind (hev t _ (L.known_later ht hn.tail.head)) fun u _ value hvalue => ?_
    exact L.bind (L.assign name hvalue) fun x hx _ _ => L.pure (L.good_later hx hvalue)
  · refine L.bind (L.literalName hev _ hn.head) fun t ht name _ => ?_
    refine L.bind (hev t _ (L.known_later ht hn.tail.head)) fun u _ value hvalue => ?_
    exact L.bind (L.setGlobal name hvalue) fun x hx _ _ => L.pure (L.good_later hx hvalue)
  · exact L.bind (L.literalName hev _ hn.head) fun _ _ name _ => L.resolveName name
  · refine L.bind (L.literalName hev _ hn.head) fun t _ name _ => ?_
    refine L.bind (V := fun u found => ∀ v, found = some v → J.Good u v)
      (L.read (fun _ _ => rfl) fun m hm v hv => (L.gives hm).local? hv) fun u _ found hfound => ?_
    cases found with
    | none => exact L.failOwn rfl
    | some value => exact L.pure (hfound value rfl)
  · refine L.bind (L.literalName hev _ hn.head) fun t _ name _ => ?_
    refine L.bind (V := fun u found => ∀ v, found = some v → J.Good u v)
      (L.readWorld fun m hm v hv => (L.gives hm).global? hv) fun u _ found hfound => ?_
    cases found with
    | none => exact L.failOwn rfl
    | some value => exact L.pure (hfound value rfl)
  · refine L.bind (L.literalName hev _ hn.head) fun t _ name _ => ?_
    refine L.bind (L.read (V := J.Any) (fun _ _ => rfl) fun _ _ => trivial) fun _ _ _ _ => ?_
    exact L.pure (L.good_plain rfl)
  · exact L.failOwn rfl

theorem arithmetic (op : ArithmeticOp) {args : List Node} (hn : J.KnownAll s args) :
    J.Holds s J.Good (op.perform ev args) (op.perform ev' args) := by
  have hplain : ∀ t v, Value.isPlain v = true → J.Good t v := fun _ _ => L.good_plain
  rw [ArithmeticOp.perform.eq_def op ev, ArithmeticOp.perform.eq_def op ev']
  split
  · exact L.bind (L.evalAll hev hn) fun t _ values _ =>
      L.ofExcept (foldNumbers_settles (hplain t) _ values)
  · refine L.bind (hev s _ hn.head) fun t ht a _ => ?_
    refine L.bind (hev t _ (L.known_later ht hn.tail.head)) fun u _ b _ => ?_
    refine L.bind (L.expectInt _ a) fun _ _ x _ => L.bind (L.expectInt _ b) fun _ _ y _ => ?_
    exact L.bind (L.ofExcept (V := J.Any) (intRemainder_settles x y)) fun _ _ _ _ =>
      L.pure (L.good_plain rfl)
  · exact L.bind (L.evalAll hev hn) fun t _ values _ =>
      L.ofExcept (extremeOf_settles (hplain t) _ values)
  · exact L.bind (hev s _ hn.head) fun t _ value _ =>
      L.ofExcept (absoluteValue_settles (hplain t) value)
  · refine L.bind (hev s _ hn.head) fun _ _ value _ =>
      L.bind (L.expectInt _ value) fun _ _ limit _ => ?_
    split
    · exact L.failOwn rfl
    · exact L.bind (L.random limit) fun _ _ _ _ => L.pure (L.good_plain rfl)
  · exact L.bind (hev s _ hn.head) fun _ _ value _ =>
      L.bind (L.expectInt _ value) fun _ _ _ _ =>
        L.bind (L.random 100) fun _ _ _ _ => L.pure (L.good_plain rfl)
  · exact L.failOwn rfl

theorem anyEqual (first : Value) {nodes : List Node} (hn : J.KnownAll s nodes) :
    J.Holds s J.Any (anyEqual ev first nodes) (anyEqual ev' first nodes) := by
  induction nodes generalizing s with
  | nil => exact L.pure trivial
  | cons node nodes ih =>
    refine L.bind (hev s node hn.head) fun t ht candidate _ => ?_
    split
    · exact L.pure trivial
    · exact ih (L.knownAll_later ht hn.tail)

theorem compare (op : CompareOp) {args : List Node} (hn : J.KnownAll s args) :
    J.Holds s J.Good (op.perform ev args) (op.perform ev' args) := by
  rw [CompareOp.perform.eq_def op ev, CompareOp.perform.eq_def op ev']
  split
  · exact L.bind (hev s _ hn.head) fun t ht first _ =>
      L.bind (L.anyEqual hev first (L.knownAll_later ht hn.tail)) fun _ _ _ _ =>
        L.pure (L.good_plain rfl)
  · exact L.bind (hev s _ hn.head) fun t ht first _ =>
      L.bind (L.anyEqual hev first (L.knownAll_later ht hn.tail)) fun _ _ _ _ =>
        L.pure (L.good_plain rfl)
  · refine L.bind (hev s _ hn.head) fun t ht a _ => ?_
    refine L.bind (hev t _ (L.known_later ht hn.tail.head)) fun u _ b _ => ?_
    exact L.bind (L.ofExcept (V := J.Any) (compareValues_settles _ a b)) fun _ _ _ _ =>
      L.pure (L.good_plain rfl)
  · exact L.bind (hev s _ hn.head) fun _ _ _ _ => L.pure (L.good_plain rfl)
  · exact L.bind (hev s _ hn.head) fun _ _ _ _ => L.pure (L.good_plain rfl)
  · exact L.failOwn rfl

/-! ### Objects -/

theorem verbMatches {nodes : List Node} (hn : J.KnownAll s nodes) :
    J.Holds s J.Any (verbMatches ev nodes) (verbMatches ev' nodes) := by
  induction nodes generalizing s with
  | nil => exact L.pure trivial
  | cons node nodes ih =>
    refine L.bind (L.literalName hev _ hn.head) fun t ht name _ => ?_
    refine L.bind (L.look _) fun u hu action _ => ?_
    split
    · exact L.pure trivial
    · exact ih (L.knownAll_later hu (L.knownAll_later ht hn.tail))

theorem slotMatches (slot : Slot) {nodes : List Node} (hn : J.KnownAll s nodes) :
    J.Holds s J.Any (slotMatches ev slot nodes) (slotMatches ev' slot nodes) := by
  induction nodes generalizing s with
  | nil => exact L.pure trivial
  | cons node nodes ih =>
    refine L.bind (hev s node hn.head) fun t ht candidate _ => ?_
    refine L.bind (L.look _) fun u hu held _ => ?_
    split
    · exact L.pure trivial
    · exact ih (L.knownAll_later hu (L.knownAll_later ht hn.tail))

theorem holderArg {nodes : List Node} (hn : J.KnownAll s nodes) :
    J.Holds s J.Good (holderArg lib ev nodes) (holderArg lib ev' nodes) := by
  cases nodes with
  | nil =>
    rw [TextAdventure.holderArg, TextAdventure.holderArg]
    refine L.readWorld fun m hm => ?_
    rw [World.global]
    cases hg : m.world.global? lib.actorGlobal with
    | none => exact L.good_plain rfl
    | some value => exact (L.gives hm).global? hg
  | cons node nodes => exact hev s node hn.head

theorem object (op : ObjectOp) {args : List Node} (hn : J.KnownAll s args) :
    J.Holds s J.Good (op.perform lib ev args) (op.perform lib ev' args) := by
  rw [ObjectOp.perform.eq_def op lib ev, ObjectOp.perform.eq_def op lib ev']
  split
  · refine L.bind (L.objectArg hev _ hn.head) fun t ht o ho => ?_
    refine L.bind (L.nameArg hev _ (L.known_later ht hn.tail.head)) fun u hu flag _ => ?_
    exact L.bind (L.changeWorld (.setFlag (L.good_later hu ho) flag)) fun _ _ _ _ =>
      L.pure (L.good_plain rfl)
  · refine L.bind (L.objectArg hev _ hn.head) fun t ht o ho => ?_
    refine L.bind (L.nameArg hev _ (L.known_later ht hn.tail.head)) fun u hu flag _ => ?_
    exact L.bind (L.changeWorld (.clearFlag (L.good_later hu ho) flag)) fun _ _ _ _ =>
      L.pure (L.good_plain rfl)
  · refine L.bind (L.objectArg hev _ hn.head) fun t ht o _ => ?_
    refine L.bind (L.nameArg hev _ (L.known_later ht hn.tail.head)) fun u _ flag _ => ?_
    exact L.bind (L.look _) fun _ _ _ _ => L.pure (L.good_plain rfl)
  · refine L.bind (L.objectArg hev _ hn.head) fun t ht o _ => ?_
    refine L.bind (L.nameArg hev _ (L.known_later ht hn.tail.head)) fun u _ property _ => ?_
    exact L.readWorld fun m hm => (L.gives hm).property o property
  · refine L.bind (L.objectArg hev _ hn.head) fun t ht o ho => ?_
    refine L.bind (L.nameArg hev _ (L.known_later ht hn.tail.head)) fun u hu property _ => ?_
    refine L.bind (hev u _ (L.known_later hu (L.known_later ht hn.tail.tail.head)))
      fun x hx value hvalue => ?_
    have ho' := L.good_later hx (L.good_later hu ho)
    exact L.bind (L.changeWorld (.putProperty ho' property hvalue)) fun y hy _ _ =>
      L.pure (L.good_later hy hvalue)
  · refine L.bind (L.objectArg hev _ hn.head) fun t ht o ho => ?_
    refine L.bind (L.objectArg hev _ (L.known_later ht hn.tail.head)) fun u hu container hc => ?_
    exact L.bind (L.changeWorld (.move (L.good_later hu ho) hc)) fun _ _ _ _ =>
      L.pure (L.good_plain rfl)
  · refine L.bind (L.objectArg hev _ hn.head) fun t ht o ho => ?_
    exact L.bind (L.changeWorld (.remove ho)) fun _ _ _ _ => L.pure (L.good_plain rfl)
  · refine L.bind (L.objectArg hev _ hn.head) fun t ht o _ => ?_
    refine L.bind (V := fun u found => ∀ p, found = some p → J.Good u (.object p))
      (L.readWorld fun m hm p hp => (L.gives hm).parent hp) fun u _ found hfound => ?_
    exact L.pure (L.good_ofObject? hfound)
  · refine L.bind (L.objectArg hev _ hn.head) fun t ht o _ => ?_
    refine L.bind (L.objectArg hev _ (L.known_later ht hn.tail.head)) fun u _ container _ => ?_
    exact L.bind (L.look _) fun _ _ _ _ => L.pure (L.good_plain rfl)
  · refine L.bind (L.objectArg hev _ hn.head) fun t ht o _ => ?_
    refine L.bind (V := fun u found => ∀ p, found = some p → J.Good u (.object p))
      (L.readWorld fun m hm p hp => (L.gives hm).child (List.mem_of_mem_head? hp))
      fun u _ found hfound => ?_
    exact L.pure (L.good_ofObject? hfound)
  · refine L.bind (L.objectArg hev _ hn.head) fun t ht o _ => ?_
    refine L.bind (V := fun u found => ∀ p, found = some p → J.Good u (.object p))
      (L.readWorld fun m hm p hp => ?_) fun u _ found hfound => ?_
    · obtain ⟨q, _, hq⟩ := Option.bind_eq_some_iff.mp hp
      exact (L.gives hm).child (World.mem_of_childAfter hq)
    · exact L.pure (L.good_ofObject? hfound)
  · refine L.bind (L.objectArg hev _ hn.head) fun t ht o _ => ?_
    refine L.bind (L.holderArg hev (L.knownAll_later ht hn.tail)) fun u _ holder _ => ?_
    split
    · exact L.bind (L.look _) fun _ _ _ _ => L.pure (L.good_plain rfl)
    · exact L.pure (L.good_plain rfl)
  · exact L.bind (L.verbMatches hev hn) fun _ _ _ _ => L.pure (L.good_plain rfl)
  · exact L.bind (L.slotMatches hev _ hn) fun _ _ _ _ => L.pure (L.good_plain rfl)
  · exact L.bind (L.slotMatches hev _ hn) fun _ _ _ _ => L.pure (L.good_plain rfl)
  · exact L.failOwn rfl

/-! ### Output -/

omit hev in
theorem printObject (operation : String) {value : Value} (hvalue : J.Good s value) :
    J.Holds s J.Any (printObject operation value) (printObject operation value) :=
  L.bind (L.expectObject operation hvalue) fun _ _ _ _ =>
    L.bind (L.look _) fun _ _ text _ => L.print text

omit hev in
theorem printInt (operation : String) (value : Value) :
    J.Holds s J.Any (printInt operation value) (printInt operation value) :=
  L.bind (L.expectInt operation value) fun _ _ _ _ => L.print _

theorem tellItems {nodes : List Node} (hn : J.KnownAll s nodes) :
    J.Holds s J.Good (tellItems ev nodes) (tellItems ev' nodes) := by
  -- a marker takes the node after it along, so the recursion is the function's own
  fun_induction TextAdventure.tellItems ev nodes generalizing s with
  | case1 => exact L.pure (L.good_plain rfl)
  | case2 node rest hmarker ih =>
    rw [TextAdventure.tellItems.eq_def ev']
    simp only [hmarker]
    exact L.bind (L.print _) fun t ht _ _ => ih (L.knownAll_later ht hn.tail)
  | case3 node target rest hmarker ih =>
    rw [TextAdventure.tellItems.eq_def ev']
    simp only [hmarker]
    refine L.bind (hev s target hn.tail.head) fun t ht value hvalue => ?_
    refine L.bind (L.printObject _ hvalue) fun u hu _ _ => ?_
    exact ih (L.knownAll_later hu (L.knownAll_later ht hn.tail.tail))
  | case4 node target rest hmarker ih =>
    rw [TextAdventure.tellItems.eq_def ev']
    simp only [hmarker]
    refine L.bind (hev s target hn.tail.head) fun t ht value _ => ?_
    refine L.bind (L.printInt _ value) fun u hu _ _ => ?_
    exact ih (L.knownAll_later hu (L.knownAll_later ht hn.tail.tail))
  | case5 node marker hne hmarker =>
    rw [TextAdventure.tellItems.eq_def ev']
    simp only [hmarker]
    exact L.failOwn rfl
  | case6 node rest hmarker ih =>
    rw [TextAdventure.tellItems.eq_def ev']
    simp only [hmarker]
    refine L.bind (hev s node hn.head) fun t ht value _ => ?_
    refine L.bind (L.look _) fun u hu text _ => L.bind (L.print text) fun x hx _ _ => ?_
    exact ih (L.knownAll_later hx (L.knownAll_later hu (L.knownAll_later ht hn.tail)))

theorem output (op : OutputOp) {args : List Node} (hn : J.KnownAll s args) :
    J.Holds s J.Good (op.perform ev args) (op.perform ev' args) := by
  rw [OutputOp.perform.eq_def op ev, OutputOp.perform.eq_def op ev']
  split
  · exact L.tellItems hev hn
  · exact L.bind (hev s _ hn.head) fun _ _ _ _ => L.bind (L.look _) fun _ _ _ _ =>
      L.bind (L.print _) fun _ _ _ _ => L.pure (L.good_plain rfl)
  · exact L.bind (hev s _ hn.head) fun _ _ _ _ => L.bind (L.look _) fun _ _ _ _ =>
      L.bind (L.print _) fun _ _ _ _ => L.pure (L.good_plain rfl)
  · exact L.bind (hev s _ hn.head) fun _ _ _ hvalue =>
      L.bind (L.printObject _ hvalue) fun _ _ _ _ => L.pure (L.good_plain rfl)
  · exact L.bind (hev s _ hn.head) fun _ _ value _ =>
      L.bind (L.printInt _ value) fun _ _ _ _ => L.pure (L.good_plain rfl)
  · exact L.bind (hev s _ hn.head) fun _ _ value _ =>
      L.bind (L.ofExcept (V := J.Any) (expectChar_settles value)) fun _ _ _ _ =>
        L.bind (L.print _) fun _ _ _ _ => L.pure (L.good_plain rfl)
  · exact L.bind (L.print _) fun _ _ _ _ => L.pure (L.good_plain rfl)
  · exact L.bind L.quit fun _ _ _ _ => L.pure (L.good_plain rfl)
  · exact L.failOwn rfl

/-! ### Tables -/

theorem tableOf (counted : Bool) {args : List Node} (hn : J.KnownAll s args) :
    J.Holds s J.Good (tableOf ev counted args) (tableOf ev' counted args) := by
  have hitems := hn.tableFlags
  rw [TextAdventure.tableOf, TextAdventure.tableOf]
  generalize tableFlags args = split at hitems ⊢
  rcases split with ⟨flagged, items⟩
  refine L.bind (L.evalAll hev hitems) fun t _ values hvalues => ?_
  split
  · refine L.makeTable fun v hv => ?_
    rcases List.mem_cons.mp hv with rfl | hv
    · exact L.good_plain rfl
    · exact hvalues v hv
  · exact L.makeTable hvalues

theorem fillValue {nodes : List Node} (hn : J.KnownAll s nodes) :
    J.Holds s J.Good (fillValue ev nodes) (fillValue ev' nodes) := by
  cases nodes with
  | nil => exact L.pure (L.good_plain rfl)
  | cons node nodes => exact hev s node hn.head

omit hev in
theorem makeFilled (hpermits : J.Permits (.table .fill)) (count : Nat) {fill : Value}
    (hfill : J.Good s fill) :
    J.Holds s J.Good (makeFilled lib count fill) (makeFilled lib count fill) := by
  rw [TextAdventure.makeFilled]
  split
  · refine L.makeTable fun v hv => ?_
    rw [List.eq_of_mem_replicate hv]
    exact hfill
  · rename_i hcount
    exact L.noMemory hpermits (Nat.lt_of_not_le hcount)

theorem filledTable (hpermits : J.Permits (.table .fill)) {args : List Node}
    (hn : J.KnownAll s args) :
    J.Holds s J.Good (filledTable lib ev args) (filledTable lib ev' args) := by
  have hitems := hn.tableFlags
  rw [TextAdventure.filledTable, TextAdventure.filledTable]
  split
  · exact L.pure (L.good_plain rfl)
  · rename_i node rest hargs
    rw [hargs] at hitems
    refine L.bind (hev s node hitems.head) fun t ht value _ => ?_
    refine L.bind (L.expectInt _ value) fun u hu count _ => ?_
    exact L.bind (L.fillValue hev (L.knownAll_later hu (L.knownAll_later ht hitems.tail)))
      fun x _ fill hfill => L.makeFilled hpermits _ hfill

theorem readCell {target node : Node} (ht : J.Known s target) (hn : J.Known s node) :
    J.Holds s J.Good (readCell ev target node) (readCell ev' target node) := by
  refine L.bind (hev s target ht) fun t ht table htable => ?_
  refine L.bind (hev t node (L.known_later ht hn)) fun u hu index _ => ?_
  refine L.bind (L.expectTable _ (L.good_later hu htable)) fun x _ id hid => ?_
  refine L.bind (L.expectInt _ index) fun y hy i _ => ?_
  refine L.bind
    (V := fun z e => (∀ v, e = .ok v → J.Good z v) ∧ ∀ fault, e = .error fault → J.Fails fault)
    (L.readWorld fun m hm => ⟨fun v hv => (L.gives hm).cell hv,
      fun fault hf => L.cell_fault hm (L.good_later hy hid) hf⟩) fun z _ e he => ?_
  cases e with
  | ok v => exact L.pure (he.1 v rfl)
  | error fault => exact L.fail (he.2 fault rfl)

theorem writeCell (operation : String) {convert : Value → Value}
    (hconvert : ∀ t v, J.Good t v → J.Good t (convert v)) {target node content : Node}
    (ht : J.Known s target) (hn : J.Known s node) (hc : J.Known s content) :
    J.Holds s J.Good (writeCell ev operation convert target node content)
      (writeCell ev' operation convert target node content) := by
  refine L.bind (hev s target ht) fun t ht table htable => ?_
  refine L.bind (hev t node (L.known_later ht hn)) fun u hu index _ => ?_
  refine L.bind (hev u content (L.known_later hu (L.known_later ht hc))) fun x hx value hvalue => ?_
  refine L.bind (L.expectTable _ (L.good_later hx (L.good_later hu htable))) fun y hy id hid => ?_
  refine L.bind (L.expectInt _ index) fun z hz i _ => ?_
  have hwritten := L.good_later hz (L.good_later hy (hconvert x value hvalue))
  refine L.bind (L.changeWorld (.tablePut (L.good_later hz hid) i.toInt hwritten)) fun _ h _ _ => ?_
  exact L.pure (L.good_later h hwritten)

omit hev in
theorem good_byteOf {value : Value} (h : J.Good s value) : J.Good s (byteOf value) := by
  cases value with
  | int n => exact L.good_plain rfl
  | _ => exact h

theorem table {op : TableOp} (hpermits : J.Permits (.table op)) {args : List Node}
    (hn : J.KnownAll s args) :
    J.Holds s J.Good (op.perform lib ev args) (op.perform lib ev' args) := by
  rw [TableOp.perform.eq_def op lib ev, TableOp.perform.eq_def op lib ev']
  split
  · exact L.tableOf hev false hn
  · exact L.tableOf hev true hn
  · exact L.filledTable hev hpermits hn
  · exact L.readCell hev hn.head hn.tail.head
  · exact L.readCell hev hn.head hn.tail.head
  · exact L.writeCell hev _ (fun _ _ h => h) hn.head hn.tail.head hn.tail.tail.head
  · exact L.writeCell hev _ (fun _ _ => L.good_byteOf) hn.head hn.tail.head hn.tail.tail.head
  · exact L.failOwn rfl

/-! ### Evaluation -/

theorem perform {op : Operation} (hop : op ≠ .control .apply) (hpermits : J.Permits op)
    {fuel fuel' : Nat} (hfuel : J.Rounds fuel fuel') {args : List Node}
    (hn : J.KnownAll s args) :
    J.Holds s J.Good (op.perform lib fuel ev args) (op.perform lib fuel' ev' args) := by
  cases op with
  | control op => exact L.control hev (fun h => hop (congrArg _ h)) hpermits hfuel hn
  | binding op => exact L.binding hev op hn
  | arithmetic op => exact L.arithmetic hev op hn
  | compare op => exact L.compare hev op hn
  | object op => exact L.object hev op hn
  | output op => exact L.output hev op hn
  | table op => exact L.table hev hpermits hn

variable {call call' : Value → List Value → Run Value}
  (hcall : ∀ t callee values, J.GoodAll t values →
    J.Holds t J.Good (call callee values) (call' callee values))
include hcall

theorem applyWith {args : List Node} (hn : J.KnownAll s args) :
    J.Holds s J.Good (applyWith ev call args) (applyWith ev' call' args) := by
  refine L.bind (L.evalAll hev hn) fun t _ values hvalues => ?_
  cases values with
  | nil => exact L.failOwn rfl
  | cons callee values =>
    exact hcall t callee values fun v hv => hvalues v (List.mem_cons_of_mem _ hv)

theorem dispatchWith {operator : String}
    (hpermits : ∀ op, lib.operations.lookup? operator = some op → J.Permits op)
    {fuel fuel' : Nat} (hfuel : J.Rounds fuel fuel') {args : List Node} (hn : J.KnownAll s args) :
    J.Holds s J.Good (dispatchWith lib fuel ev call operator args)
      (dispatchWith lib fuel' ev' call' operator args) := by
  rw [TextAdventure.dispatchWith, TextAdventure.dispatchWith]
  split
  · rename_i op hlookup
    split
    · exact L.failOwn rfl
    · split
      · exact L.applyWith hev hcall hn
      · exact L.perform hev ‹_› (hpermits _ hlookup) hfuel hn
  · split
    · exact L.bind (L.evalAll hev hn) fun t _ values hvalues => hcall t _ values hvalues
    · exact L.failOwn rfl

/-- What holds of evaluating the parts of a node and of calls holds of the work on the node. -/
theorem evalStepWith {node : Node} (hparts : J.KnownAll s node.parts)
    (hpermits : ∀ operator args span, node = .form operator args span →
      ∀ op, lib.operations.lookup? operator = some op → J.Permits op)
    {fuel fuel' : Nat} (hfuel : J.Rounds fuel fuel') :
    J.Holds s J.Good (evalStepWith lib fuel ev call node)
      (evalStepWith lib fuel' ev' call' node) := by
  cases node with
  | form operator args span => exact L.dispatchWith hev hcall (hpermits _ _ _ rfl) hfuel hparts
  | list items span =>
    exact L.bind (L.evalAll hev hparts) fun _ _ _ hvalues => L.pure (L.good_list.mpr hvalues)
  | empty span => exact L.pure (L.good_plain rfl)
  | atom name span =>
    refine L.pure ?_
    rw [atomValue]
    split
    · exact L.good_plain rfl
    · exact L.good_plain rfl
  | reference kind name span => exact L.resolveName name
  | literal value span => cases value <;> exact L.pure (L.good_plain rfl)
  | marked marker body span =>
    cases marker with
    | quote => exact L.pure (L.good_quote body)
    | quasiquote => exact L.pure (L.good_quote body)
    | splice => exact hev s body hparts.head
    | percent => exact hev s body hparts.head
    | tag tag =>
      show J.Holds s J.Good (taggedValue ev tag body) (taggedValue ev' tag body)
      rw [taggedValue, taggedValue]
      split
      · exact hev s body hparts.head
      · split
        · exact L.pure (L.good_plain rfl)
        · exact L.failOwn rfl

end

end OperationLogic

namespace ProgramLogic

variable {J : Judgement} {lib : Library} {s : J.Stage} {ev ev' : Node → Run Value}
  (L : ProgramLogic J lib) (hev : J.Evaluates ev ev')
include L hev

theorem callRoutine (name : String) {args : List Value} (hargs : J.GoodAll s args) :
    J.Holds s J.Good (callRoutine lib ev name args) (callRoutine lib ev' name args) := by
  rw [TextAdventure.callRoutine, TextAdventure.callRoutine]
  split
  · exact L.failOwn rfl
  · rename_i routine hroutine
    refine L.withinCall _ (runRoutine_quiet ev routine args) fun t ht => ?_
    exact L.runRoutine hev (fun node hn => L.known_routine ht hroutine hn)
      fun v hv => L.good_deeper ht (hargs v hv)

theorem callValue (callee : Value) {args : List Value} (hargs : J.GoodAll s args) :
    J.Holds s J.Good (callValue lib ev callee args) (callValue lib ev' callee args) := by
  cases callee with
  | routine name => exact L.callRoutine hev name hargs
  | atom name => exact L.callRoutine hev name hargs
  | string name => exact L.callRoutine hev name hargs
  | _ => exact L.failOwn rfl

/-- What holds of evaluating the parts of a node holds of evaluating the node. -/
theorem evalStep {node : Node} (hparts : J.KnownAll s node.parts)
    (hpermits : ∀ operator args span, node = .form operator args span →
      ∀ op, lib.operations.lookup? operator = some op → J.Permits op)
    {fuel fuel' : Nat} (hfuel : J.Rounds fuel fuel') :
    J.Holds s J.Good (evalStep lib fuel ev node) (evalStep lib fuel' ev' node) := by
  rw [← evalStepWith_callValue, ← evalStepWith_callValue]
  exact L.evalStepWith hev (fun t callee values hvalues => L.callValue hev callee hvalues)
    hparts hpermits hfuel

end ProgramLogic

end TextAdventure
