import TextAdventure.Proofs.Program.Logic

/-!
What holds of every evaluation because it holds of the steps it is made of.

Evaluation is put together from a few actions on the machine — reading it, printing, assigning a
variable, changing the world, drawing a number — by sequencing, by blocks and by calls.  A
property of actions that the single actions have and that these three ways of putting actions
together keep is a property of evaluation.

* `Discipline` — such a property, with a weaker one for the heads of blocks and routines, where
  names are bound;
* `Discipline.logic` — it is a judgement that makes nothing of stages, values and nodes;
* `Discipline.eval` — every evaluation has the property;
* `Discipline.call` — and so has every call of a routine.
-/

namespace TextAdventure

/-- A property `P` of actions, and a weaker property `B` of actions that may also bind names in
the innermost scope, both kept by everything that evaluation does. -/
structure Discipline (lib : Library) (P B : (α : Type) → Run α → Prop) : Prop where
  pure {α : Type} (a : α) : P α (pure a)
  bind {α β : Type} {act : Run α} {next : α → Run β} (hact : P α act)
    (hnext : ∀ a, act.Yields a → P β (next a)) : P β (act >>= next)
  fail {α : Type} (fault : Fault) : P α (Run.fail fault)
  exhaust {α : Type} (what : Shortage) : P α (Run.exhaust what)
  returnTrue : P Value (Run.raise .returnTrue)
  returnFalse : P Value (Run.raise .returnFalse)
  leaveWith (value : Value) : P Value (leaveWith value)
  collapse {act : Run Value} (hact : P Value act) : P Value act.collapse
  read {α : Type} {f : Machine → α} (hblind : ∀ m text, f { m with output := text } = f m) :
    P α (Run.read f)
  print (text : String) : P Unit (Run.print text)
  random (limit : Int64) : P Int64 (Run.random limit)
  quit : P Unit (Run.modify fun m => { m with quit := true })
  assign (name : String) (value : Value) : P Unit (Run.modifyFrame (·.assign name value))
  setGlobal (name : String) (value : Value) :
    P Unit (Run.modifyWorld (·.setGlobal name value))
  makeTable (cells : List Value) : P Value (makeTable cells)
  changeWorld {f : World → Except Fault World}
    (hf : ∀ w w', f w = .ok w' → World.ProgramChange w w') : P Unit (Run.changeWorld f)
  lift {α : Type} {act : Run α} (hact : P α act) : B α act
  andThen {α β : Type} {act : Run α} {next : α → Run β} (hact : B α act)
    (hnext : ∀ a, act.Yields a → B β (next a)) : B β (act >>= next)
  bindName (name : String) (value : Value) (assigned : Bool) :
    B Unit (Run.modifyFrame (·.bind name value assigned))
  withinBlock {act : Run Value} (hact : B Value act) : P Value act.withinBlock
  withinCall (name : String) {act : Run Value} (hquiet : act.Quiet) (hact : B Value act) :
    P Value fun m =>
      if lib.maxDepth ≤ m.depth then
        (.failed ((Failure.ofFault (.callDepthExceeded lib.maxDepth)).inRoutine name), m)
      else act.withinCall name m

namespace Discipline

variable {lib : Library} {P B : (α : Type) → Run α → Prop} {ev : Node → Run Value}

/-- The judgement that an action has the property; of the values it yields nothing is said but
what is known anyhow. -/
def judgement (P B : (α : Type) → Run α → Prop) : Judgement where
  Stage := Unit
  Later _ _ := True
  Deeper _ _ := True
  At _ _ := True
  Good _ _ := True
  Known _ _ := True
  Fails _ := True
  Permits _ := True
  Holds {α} _ V act _ := P α act ∧ ∀ a, act.Yields a → V () a
  Head {α} _ V act _ := B α act ∧ ∀ a, act.Yields a → V () a

theorem forever (h : Discipline lib P B) {act : Run Unit} (hact : P Unit act) (fuel : Nat) :
    P Value (Run.forever act fuel) := by
  induction fuel with
  | zero => exact h.exhaust .fuel
  | succ fuel ih =>
    rw [Run.forever_succ]
    exact h.bind hact fun _ _ => ih

theorem logic (h : Discipline lib P B) : ProgramLogic (judgement P B) lib where
  good_later _ _ _ := trivial
  good_deeper _ _ _ := trivial
  good_plain _ := trivial
  good_list := ⟨fun _ _ _ => trivial, fun _ => trivial⟩
  known_later _ _ _ := trivial
  known_item _ _ _ := trivial
  known_routine _ _ _ _ _ _ := trivial
  fails _ := trivial
  gives _ := .of_forall (fun _ => trivial) _
  cell_fault _ _ _ _ _ _ := trivial
  pure {_ _ V a} ha := by
    refine ⟨h.pure a, ?_⟩
    rintro _ ⟨m, hm⟩
    cases hm
    exact ha
  bind hact hnext := by
    refine ⟨h.bind hact.1 fun a ha => (hnext () trivial a (hact.2 a ha)).1, fun b hb => ?_⟩
    obtain ⟨a, ha, hb⟩ := hb.of_bind
    exact (hnext () trivial a (hact.2 a ha)).2 b hb
  fail _ := ⟨h.fail _, fun _ ⟨_, hm⟩ => nomatch hm⟩
  returnTrue := ⟨h.returnTrue, fun _ _ => trivial⟩
  returnFalse := ⟨h.returnFalse, fun _ _ => trivial⟩
  leaveWith _ := ⟨h.leaveWith _, fun _ _ => trivial⟩
  collapse hact := ⟨h.collapse hact.1, fun _ _ => trivial⟩
  read {_ _ V f} hblind hf := by
    refine ⟨h.read hblind, ?_⟩
    rintro _ ⟨m, hm⟩
    cases hm
    exact hf m trivial
  print text := ⟨h.print text, fun _ _ => trivial⟩
  random limit := ⟨h.random limit, fun _ _ => trivial⟩
  quit := ⟨h.quit, fun _ _ => trivial⟩
  assign name _ _ := ⟨h.assign name _, fun _ _ => trivial⟩
  setGlobal name _ _ := ⟨h.setGlobal name _, fun _ _ => trivial⟩
  makeTable _ := ⟨h.makeTable _, fun _ _ => trivial⟩
  changeWorld hf := ⟨h.changeWorld fun _ _ => hf.programChange, fun _ _ => trivial⟩
  noMemory _ _ _ _ := ⟨h.exhaust _, fun _ _ => trivial⟩
  forever _ _ _ _ _ _ _ hact := ⟨h.forever (hact () trivial).1 _, fun _ _ => trivial⟩
  lift hact := ⟨h.lift hact.1, hact.2⟩
  andThen hact hnext := by
    refine ⟨h.andThen hact.1 fun a ha => (hnext () trivial a (hact.2 a ha)).1, fun b hb => ?_⟩
    obtain ⟨a, ha, hb⟩ := hb.of_bind
    exact (hnext () trivial a (hact.2 a ha)).2 b hb
  bindName name _ assigned _ := ⟨h.bindName name _ assigned, fun _ _ => trivial⟩
  withinBlock hact := ⟨h.withinBlock hact.1, fun _ _ => trivial⟩
  withinCall name _ _ hquiet hact :=
    ⟨h.withinCall name hquiet (hact () trivial).1, fun _ _ => trivial⟩

section

variable (h : Discipline lib P B) (hev : ∀ node, P Value (ev node))
include hev

theorem evaluates : (judgement P B).Evaluates ev ev := fun _ node _ =>
  ⟨hev node, fun _ _ => trivial⟩

include h

theorem evalBody (nodes : List Node) : P Value (evalBody ev nodes) :=
  (h.logic.evalBody (s := ()) (evaluates hev) fun _ _ => trivial).1

theorem evalEach (nodes : List Node) : P Unit (evalEach ev nodes) :=
  (h.logic.evalEach (s := ()) (evaluates hev) fun _ _ => trivial).1

theorem bindEntries (entries : List Node) : B Unit (bindEntries ev entries) :=
  (h.logic.bindEntries (s := ()) (evaluates hev) fun _ _ => trivial).1

theorem bindBlock (args : List Node) : B (List Node) (bindBlock ev args) :=
  (h.logic.bindBlock (s := ()) (evaluates hev) fun _ _ => trivial).1

theorem bindParams (params : List Parameter) (args : List Value) :
    B Unit (bindParams ev params args) :=
  (h.logic.bindParams (s := ()) (evaluates hev) (fun _ _ => trivial) fun _ _ => trivial).1

theorem callValue (callee : Value) (args : List Value) :
    P Value (callValue lib ev callee args) :=
  (h.logic.callValue (s := ()) (evaluates hev) callee fun _ _ => trivial).1

end

/-- Every evaluation has the property. -/
theorem eval (h : Discipline lib P B) (fuel : Nat) (node : Node) :
    P Value (eval lib fuel node) := by
  induction fuel generalizing node with
  | zero => exact h.exhaust .fuel
  | succ fuel ih =>
    exact (h.logic.evalStep (s := ()) (evaluates ih) (fun _ _ => trivial)
      (fun _ _ _ _ _ _ => trivial) (Nat.le_refl fuel)).1

/-- Every call of a routine has the property. -/
theorem call (h : Discipline lib P B) (fuel : Nat) (name : String) (args : List Value) :
    P Value (call lib fuel name args) :=
  (h.logic.callRoutine (s := ()) (evaluates (h.eval fuel)) name fun _ _ => trivial).1

end Discipline

end TextAdventure
