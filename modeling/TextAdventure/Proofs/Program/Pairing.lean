import TextAdventure.Proofs.Program.Boundary
import TextAdventure.Proofs.Source.Likeness

/-!
Two programs side by side.

A law may compare what two like programs do, or say how an operation goes about its arguments.
Both kinds are about a form's work with the evaluation of its parts left open, and both follow
from a few rules: what they make of evaluating one node, of the single actions on the machine, of
a call, and of one thing after another.

* `Scheme` — an action with the evaluation of nodes left open;
* `World.LooksLike` — two worlds from which programs read the same;
* `Pairing`, `PairLogic` — a statement about two schemes, and the rules it has to obey;
* `PairLogic.inside` — it then holds of what two like blocks run;
* `PairLogic.evalStep` — and of the work of any two like nodes that are no blocks.

Design notes.  The operations are gone through here once more, since the nodes of the two programs
differ, and so may what they read.  Blocks and calls are boundaries for signals; a statement about
them takes more than these rules, so a call has a rule of its own and a block is given by what it
runs.
-/

namespace TextAdventure

/-! ### Like libraries -/

section

variable (names : String → String → Prop) (places : Span → Span → Prop)

/-- Likeness of parameters: one name, and like defaults. -/
structure Parameter.Like (p p' : Parameter) : Prop where
  name : p.name = p'.name
  default : Option.Rel (Node.Like names places) p.default p'.default

/-- Likeness of routines: one name, like parameters and locals, and like bodies. -/
structure Routine.Like (r r' : Routine) : Prop where
  name : r.name = r'.name
  params : List.Forall₂ (Parameter.Like names places) r.params r'.params
  locals : List.Forall₂ (Parameter.Like names places) r.locals r'.locals
  body : Node.AllLike names places r.body r'.body

/-- Likeness of libraries: they differ in their routines only, and a name stands for like routines
in them. -/
structure Library.Like (lib lib' : Library) : Prop where
  operations : lib.operations = lib'.operations
  maxDepth : lib.maxDepth = lib'.maxDepth
  maxCells : lib.maxCells = lib'.maxCells
  actorGlobal : lib.actorGlobal = lib'.actorGlobal
  routines (name : String) : Option.Rel (Routine.Like names places) (lib.routines.get? name)
    (lib'.routines.get? name)

variable {names : String → String → Prop} {places : Span → Span → Prop}
  (hnames : ∀ name, names name name) (hplaces : ∀ s, places s s)
include hnames hplaces

theorem Parameter.Like.refl (p : Parameter) : p.Like names places p where
  name := rfl
  default := by
    cases p.default with
    | none => exact .none
    | some node => exact .some (Node.Like.refl hnames hplaces node)

theorem Routine.Like.refl (r : Routine) : r.Like names places r where
  name := rfl
  params := List.forall₂_same.mpr fun p _ => Parameter.Like.refl hnames hplaces p
  locals := List.forall₂_same.mpr fun p _ => Parameter.Like.refl hnames hplaces p
  body := Node.Like.allRefl hnames hplaces r.body

theorem Library.Like.refl (lib : Library) : lib.Like names places lib where
  operations := rfl
  maxDepth := rfl
  maxCells := rfl
  actorGlobal := rfl
  routines name := by
    cases lib.routines.get? name with
    | none => exact .none
    | some r => exact .some (Routine.Like.refl hnames hplaces r)

end

/-- Two worlds from which programs read the same. -/
structure World.LooksLike (w w' : World) : Prop where
  global? (name : String) : w.global? name = w'.global? name
  lookup? (name : String) : w.lookup? name = w'.lookup? name
  knownFlag (name : String) : w.flags.contains name = w'.flags.contains name
  isPropertyName (name : String) : w.isPropertyName name = w'.isPropertyName name
  flag (o : ObjectId) (name : String) : w.flag o name = w'.flag o name
  property (o : ObjectId) (name : String) : w.property o name = w'.property o name
  parent? (o : ObjectId) : w.parent? o = w'.parent? o
  children (o : ObjectId) : w.children o = w'.children o
  isAncestor (a o : ObjectId) : w.isAncestor a o = w'.isAncestor a o
  tableGet (t : TableId) (index : Int) : w.tableGet t index = w'.tableGet t index
  slots : w.slots = w'.slots
  objectName (o : ObjectId) : w.objectName o = w'.objectName o

namespace World.LooksLike

variable {w w' : World}

theorem refl (w : World) : w.LooksLike w :=
  ⟨fun _ => rfl, fun _ => rfl, fun _ => rfl, fun _ => rfl, fun _ _ => rfl, fun _ _ => rfl,
    fun _ => rfl, fun _ => rfl, fun _ _ => rfl, fun _ _ => rfl, rfl, fun _ => rfl⟩

theorem nextSibling? (h : w.LooksLike w') (o : ObjectId) :
    w.nextSibling? o = w'.nextSibling? o := by
  simp only [World.nextSibling?, h.parent?, h.children]

theorem firstChild? (h : w.LooksLike w') (o : ObjectId) : w.firstChild? o = w'.firstChild? o := by
  simp only [World.firstChild?, h.children]

theorem describe (h : w.LooksLike w') (o : ObjectId) : w.describe o = w'.describe o := by
  simp only [World.describe, h.property, h.objectName]

theorem render (h : w.LooksLike w') (value : Value) : w.render value = w'.render value := by
  cases value with
  | object o => exact h.describe o
  | _ => rfl

end World.LooksLike

/-! ### Blocks -/

/-- A form that runs a block. -/
def Library.IsBlock (lib : Library) : Node → Prop
  | .form operator _ _ =>
    ∃ op, lib.operations.lookup? operator = some (.control op) ∧ (op = .block ∨ op = .loop)
  | _ => False

/-- The work of a form that runs a block. -/
theorem evalStep_block {lib : Library} {operator : String} {op : ControlOp}
    (hlookup : lib.operations.lookup? operator = some (.control op))
    (hop : op = .block ∨ op = .loop) (fuel : Nat) (ev : Node → Run Value) (args : List Node)
    (s : Span) :
    evalStep lib fuel ev (.form operator args s) = (op.inside fuel ev args).withinBlock := by
  rw [evalStep, dispatch, hlookup]
  obtain rfl | rfl := hop
  · rfl
  · rfl

/-! ### Statements about two schemes -/

/-- An action with the evaluation of nodes left open. -/
abbrev Scheme (α : Type) : Type := (Node → Run Value) → Run α

/-- A statement about two schemes.  `Holds V F G` goes with the values that the schemes yield: `V`
relates them. -/
structure Pairing where
  Holds {α β : Type} (V : α → β → Prop) (F : Scheme α) (G : Scheme β) : Prop

/-- The rules that a statement about two schemes has to obey to hold of the work of like nodes, in
two like libraries. -/
structure PairLogic (P : Pairing) (names : String → String → Prop) (places : Span → Span → Prop)
    (lib lib' : Library) : Prop where
  canonical {s s' : String} (h : names s s') : canonical s = canonical s'
  library : lib.Like names places lib'
  pure {α β : Type} {V : α → β → Prop} {a : α} {b : β} (h : V a b) :
    P.Holds V (fun _ => pure a) (fun _ => pure b)
  bind {α β γ δ : Type} {V : α → β → Prop} {U : γ → δ → Prop} {F : Scheme α} {G : Scheme β}
    {next : α → Scheme γ} {next' : β → Scheme δ} (hfirst : P.Holds V F G)
    (hnext : ∀ a b, V a b → P.Holds U (next a) (next' b)) :
    P.Holds U (fun ev => F ev >>= fun a => next a ev) (fun ev => G ev >>= fun b => next' b ev)
  fail {α β : Type} {V : α → β → Prop} (fault : Fault) :
    P.Holds V (fun _ => Run.fail fault) (fun _ => Run.fail fault)
  raise {α β : Type} {V : α → β → Prop} (s : Signal) :
    P.Holds V (fun _ => Run.raise s) (fun _ => Run.raise s)
  exhaust {α β : Type} {V : α → β → Prop} (what : Shortage) :
    P.Holds V (fun _ => Run.exhaust what) (fun _ => Run.exhaust what)
  evaluate {node node' : Node} (h : node.Like names places node') :
    P.Holds Eq (fun ev => ev node) (fun ev => ev node')
  call (callee : Value) (args : List Value) :
    P.Holds Eq (fun ev => callValue lib ev callee args) (fun ev => callValue lib' ev callee args)
  read {α β : Type} {V : α → β → Prop} {f : Machine → α} {g : Machine → β}
    (h : ∀ m w, m.world.LooksLike w → V (f m) (g { m with world := w })) :
    P.Holds V (fun _ => Run.read f) (fun _ => Run.read g)
  print (text : String) : P.Holds Eq (fun _ => Run.print text) (fun _ => Run.print text)
  random (limit : Int64) : P.Holds Eq (fun _ => Run.random limit) (fun _ => Run.random limit)
  quit : P.Holds Eq (fun _ => Run.modify fun m => { m with quit := true })
    (fun _ => Run.modify fun m => { m with quit := true })
  modifyFrame (f : Frame → Frame) :
    P.Holds Eq (fun _ => Run.modifyFrame f) (fun _ => Run.modifyFrame f)
  setGlobal (name : String) (value : Value) :
    P.Holds Eq (fun _ => Run.modifyWorld (·.setGlobal name value))
      (fun _ => Run.modifyWorld (·.setGlobal name value))
  makeTable (cells : List Value) :
    P.Holds Eq (fun _ => makeTable cells) (fun _ => makeTable cells)
  changeWorld {f : World → Except Fault World} (hf : World.Edit (fun _ => True) f) :
    P.Holds Eq (fun _ => Run.changeWorld f) (fun _ => Run.changeWorld f)

namespace PairLogic

variable {P : Pairing} {names : String → String → Prop} {places : Span → Span → Prop}
  {lib lib' : Library} (L : PairLogic P names places lib lib')
include L

/-! ### Putting schemes together -/

/-- One thing after another, where both sides go on with the same value. -/
theorem andThen {α γ δ : Type} {U : γ → δ → Prop} {F G : Scheme α} {next : α → Scheme γ}
    {next' : α → Scheme δ} (hfirst : P.Holds Eq F G)
    (hnext : ∀ a, P.Holds U (next a) (next' a)) :
    P.Holds U (fun ev => F ev >>= fun a => next a ev) (fun ev => G ev >>= fun a => next' a ev) :=
  L.bind hfirst fun a _ h => h ▸ hnext a

omit L in
/-- A choice that both sides make alike. -/
theorem choose {α β : Type} {V : α → β → Prop} {c : Prop} [Decidable c] {F F' : Scheme α}
    {G G' : Scheme β} (hpos : c → P.Holds V F G) (hneg : ¬ c → P.Holds V F' G') :
    P.Holds V (fun ev => if c then F ev else F' ev) (fun ev => if c then G ev else G' ev) := by
  by_cases h : c
  · simpa only [if_pos h] using hpos h
  · simpa only [if_neg h] using hneg h

/-- Two like nodes that will not do fail alike. -/
theorem failKind {α β : Type} {V : α → β → Prop} (operation expected : String) {node node' : Node}
    (h : node.Like names places node') :
    P.Holds V (fun _ => Run.fail (.typeMismatch operation expected node.kindName))
      (fun _ => Run.fail (.typeMismatch operation expected node'.kindName)) := by
  rw [h.kindName]
  exact L.fail _

theorem ofExcept {α : Type} (e : Except Fault α) :
    P.Holds Eq (fun _ => Run.ofExcept e) (fun _ => Run.ofExcept e) := by
  cases e with
  | ok a => exact L.pure rfl
  | error fault => exact L.fail fault

theorem readWorld {α : Type} {f : World → α} (h : ∀ w w', w.LooksLike w' → f w = f w') :
    P.Holds Eq (fun _ => Run.readWorld f) (fun _ => Run.readWorld f) :=
  L.read fun m w hw => h m.world w hw

theorem readFrame {α : Type} (f : Frame → α) :
    P.Holds Eq (fun _ => Run.read fun m => f m.frame) (fun _ => Run.read fun m => f m.frame) :=
  L.read fun _ _ _ => rfl

/-! ### What an operation expects -/

theorem expectInt (operation : String) (value : Value) :
    P.Holds Eq (fun _ => expectInt operation value) (fun _ => expectInt operation value) := by
  cases value with
  | int n => exact L.pure rfl
  | _ => exact L.fail _

theorem expectObject (operation : String) (value : Value) :
    P.Holds Eq (fun _ => expectObject operation value) (fun _ => expectObject operation value) := by
  cases value with
  | object o => exact L.pure rfl
  | _ => exact L.fail _

theorem expectTable (operation : String) (value : Value) :
    P.Holds Eq (fun _ => expectTable operation value) (fun _ => expectTable operation value) := by
  cases value with
  | table t => exact L.pure rfl
  | _ => exact L.fail _

theorem expectName (operation : String) (value : Value) :
    P.Holds Eq (fun _ => expectName operation value) (fun _ => expectName operation value) := by
  cases value with
  | atom name => exact L.pure rfl
  | string name => exact L.pure rfl
  | _ => exact L.fail _

theorem objectArg (operation : String) {node node' : Node} (h : node.Like names places node') :
    P.Holds Eq (fun ev => objectArg ev operation node) (fun ev => objectArg ev operation node') :=
  L.andThen (L.evaluate h) fun value => L.expectObject operation value

theorem nameArg (operation : String) {node node' : Node} (h : node.Like names places node') :
    P.Holds Eq (fun ev => nameArg ev operation node) (fun ev => nameArg ev operation node') :=
  L.andThen (L.evaluate h) fun value => L.expectName operation value

theorem literalName (operation : String) {node node' : Node} (h : node.Like names places node') :
    P.Holds Eq (fun ev => literalName ev operation node)
      (fun ev => literalName ev operation node') := by
  have hname := h.name?
  simp only [TextAdventure.literalName]
  generalize node.name? = found at hname ⊢
  generalize node'.name? = found' at hname ⊢
  obtain hname | _ := hname
  · exact L.pure (L.canonical hname)
  · exact L.nameArg operation h

/-! ### Several nodes -/

omit L in
theorem spliceValue_eq {node node' : Node} (h : node.Like names places node') (value : Value)
    (rest : List Value) : spliceValue node value rest = spliceValue node' value rest := by
  cases h with
  | marked hmarker _ _ =>
    obtain _ | _ | _ | _ | _ := hmarker
    -- a spliced list is flattened, whatever stands behind the marker
    case splice => cases value <;> rfl
    all_goals rfl
  | _ => rfl

theorem evalAll {nodes nodes' : List Node} (h : Node.AllLike names places nodes nodes') :
    P.Holds Eq (fun ev => evalAll ev nodes) (fun ev => evalAll ev nodes') := by
  induction h with
  | nil => exact L.pure rfl
  | cons hnode _ ih =>
    exact L.andThen (L.evaluate hnode) fun value => L.andThen ih fun values =>
      L.pure (spliceValue_eq hnode value values)

theorem evalLast {nodes nodes' : List Node} (h : Node.AllLike names places nodes nodes')
    (last : Value) : P.Holds Eq (fun ev => evalLast ev last nodes)
      (fun ev => evalLast ev last nodes') := by
  induction h generalizing last with
  | nil => exact L.pure rfl
  | cons hnode _ ih => exact L.andThen (L.evaluate hnode) fun value => ih value

theorem evalBody {nodes nodes' : List Node} (h : Node.AllLike names places nodes nodes') :
    P.Holds Eq (fun ev => evalBody ev nodes) (fun ev => evalBody ev nodes') :=
  L.evalLast h (.bool false)

theorem evalEach {nodes nodes' : List Node} (h : Node.AllLike names places nodes nodes') :
    P.Holds Eq (fun ev => evalEach ev nodes) (fun ev => evalEach ev nodes') := by
  induction h with
  | nil => exact L.pure rfl
  | cons hnode _ ih => exact L.andThen (L.evaluate hnode) fun _ => ih

/-! ### Names -/

theorem lookup?_like {name name' : String} (h : TextAdventure.canonical name =
    TextAdventure.canonical name') :
    Option.Rel (Routine.Like names places) (lib.routines.lookup? name)
      (lib'.routines.lookup? name') := by
  simp only [RoutineTable.lookup?, h]
  exact L.library.routines _

/-- A name refers to the same in like libraries and worlds that look alike. -/
theorem resolve_eq {name name' : String} (h : TextAdventure.canonical name =
    TextAdventure.canonical name') {w w' : World} (hw : w.LooksLike w') (frame : Frame) :
    resolve lib w frame name = resolve lib' w' frame name' := by
  have hlocal : frame.get? name = frame.get? name' := by
    simp only [Frame.get?, Frame.binding?, h]
  have hglobal : w.global? name = w'.global? name' := by
    rw [hw.global?]
    simp only [World.global?, h]
  have hobject : w.lookup? name = w'.lookup? name' := by
    rw [hw.lookup?]
    simp only [World.lookup?, h]
  have hflag : w.flags.contains name = w'.flags.contains name' := by
    rw [hw.knownFlag]
    simp only [FlagVocabulary.contains, FlagVocabulary.bit?, h]
  have hproperty : w.isPropertyName = w'.isPropertyName := funext hw.isPropertyName
  have hroutine := L.lookup?_like h
  simp only [resolve, hlocal, hglobal, hobject, hflag, hproperty, h]
  generalize lib.routines.lookup? name = found at hroutine ⊢
  generalize lib'.routines.lookup? name' = found' at hroutine ⊢
  obtain _ | _ := hroutine
  · rfl
  · rfl

theorem resolveName {name name' : String} (h : TextAdventure.canonical name =
    TextAdventure.canonical name') :
    P.Holds Eq (fun _ => resolveName lib name) (fun _ => resolveName lib' name') :=
  L.andThen (L.read fun m _ hw => L.resolve_eq h hw m.frame) fun e => L.ofExcept e

/-! ### Control -/

theorem firstClause {clauses clauses' : List Node}
    (h : Node.AllLike names places clauses clauses') :
    P.Holds Eq (fun ev => firstClause ev clauses) (fun ev => firstClause ev clauses') := by
  induction h with
  | nil => exact L.pure rfl
  | cons hclause _ ih =>
    have hother := L.failKind (V := @Eq Value) "COND" "clause list" hclause
    cases hclause with
    | list hitems _ =>
      obtain _ | ⟨hguard, hbody⟩ := hitems
      · exact hother
      · refine L.andThen (L.evaluate hguard) fun test => ?_
        refine choose (fun _ => ?_) fun _ => ih
        obtain _ | ⟨hnode, hnodes⟩ := hbody
        · exact L.pure rfl
        · exact L.evalBody (.cons hnode hnodes)
    | _ => exact hother

theorem conjunction {nodes nodes' : List Node} (h : Node.AllLike names places nodes nodes')
    (last : Value) : P.Holds Eq (fun ev => conjunction ev last nodes)
      (fun ev => conjunction ev last nodes') := by
  induction h generalizing last with
  | nil => exact L.pure rfl
  | cons hnode _ ih =>
    exact L.andThen (L.evaluate hnode) fun value =>
      choose (fun _ => ih value) fun _ => L.pure rfl

theorem disjunction {nodes nodes' : List Node} (h : Node.AllLike names places nodes nodes')
    (last : Value) : P.Holds Eq (fun ev => disjunction ev last nodes)
      (fun ev => disjunction ev last nodes') := by
  induction h generalizing last with
  | nil => exact L.pure rfl
  | cons hnode _ ih =>
    exact L.andThen (L.evaluate hnode) fun value =>
      choose (fun _ => L.pure rfl) fun _ => ih value

theorem bindName {name name' : String} (h : TextAdventure.canonical name =
    TextAdventure.canonical name') (value : Value) (assigned : Bool) :
    P.Holds Eq (fun _ => Run.modifyFrame (·.bind name value assigned))
      (fun _ => Run.modifyFrame (·.bind name' value assigned)) := by
  have hbind : (fun f : Frame => f.bind name value assigned) =
      fun f => f.bind name' value assigned := by
    funext f
    simp only [Frame.bind, h]
  rw [hbind]
  exact L.modifyFrame _

theorem bindEntry {entry entry' : Node} (h : entry.Like names places entry') :
    P.Holds Eq (fun ev => bindEntry ev entry) (fun ev => bindEntry ev entry') := by
  have hother := L.failKind (V := @Eq Unit) "PROG" "binding" h
  cases h with
  | atom hname _ => exact L.bindName (L.canonical hname) _ _
  | list hitems _ =>
    -- only a pair of an atom and a node binds anything
    obtain _ | ⟨hfirst, _ | ⟨hsecond, _ | ⟨_, _⟩⟩⟩ := hitems
    · exact L.fail _
    · cases hfirst <;> exact L.fail _
    · cases hfirst with
      | atom hname _ =>
        exact L.andThen (L.evaluate hsecond) fun value => L.bindName (L.canonical hname) _ _
      | _ => exact L.fail _
    · cases hfirst <;> exact L.fail _
  | literal value _ =>
    cases value with
    | string _ => exact L.pure rfl
    | _ => exact hother
  | _ => exact hother

theorem bindEntries {entries entries' : List Node}
    (h : Node.AllLike names places entries entries') :
    P.Holds Eq (fun ev => bindEntries ev entries) (fun ev => bindEntries ev entries') := by
  induction h with
  | nil => exact L.pure rfl
  | cons hentry _ ih => exact L.andThen (L.bindEntry hentry) fun _ => ih

theorem bindBlock {args args' : List Node} (h : Node.AllLike names places args args') :
    P.Holds (Node.AllLike names places) (fun ev => bindBlock ev args)
      (fun ev => bindBlock ev args') := by
  obtain _ | ⟨hfirst, hbody⟩ := h
  · exact L.pure .nil
  · cases hfirst with
    | list hbindings _ => exact L.andThen (L.bindEntries hbindings) fun _ => L.pure hbody
    | form hoperator hargs hs => exact L.pure (.cons (.form hoperator hargs hs) hbody)
    | empty hs => exact L.pure (.cons (.empty hs) hbody)
    | atom hname hs => exact L.pure (.cons (.atom hname hs) hbody)
    | reference sigil hname hs => exact L.pure (.cons (.reference sigil hname hs) hbody)
    | literal value hs => exact L.pure (.cons (.literal value hs) hbody)
    | marked hmarker hnode hs => exact L.pure (.cons (.marked hmarker hnode hs) hbody)

theorem forever {F G : Scheme Unit} (h : P.Holds Eq F G) (fuel : Nat) :
    P.Holds Eq (fun ev => Run.forever (F ev) fuel) (fun ev => Run.forever (G ev) fuel) := by
  induction fuel with
  | zero => exact L.exhaust .fuel
  | succ fuel ih =>
    simp only [Run.forever_succ]
    exact L.andThen h fun _ => ih

/-- What holds of like nodes holds of what like blocks run. -/
theorem inside (op : ControlOp) (fuel : Nat) {args args' : List Node}
    (h : Node.AllLike names places args args') :
    P.Holds Eq (fun ev => op.inside fuel ev args) (fun ev => op.inside fuel ev args') := by
  refine L.bind (L.bindBlock h) fun body body' hbody => ?_
  exact choose (fun _ => L.forever (L.evalEach hbody) fuel) fun _ => L.evalBody hbody

theorem leaveWith (value : Value) :
    P.Holds Eq (fun _ => leaveWith value) (fun _ => leaveWith value) :=
  L.andThen (L.readFrame Frame.inBlock) fun _ => choose (fun _ => L.raise _) fun _ => L.raise _

theorem control {op : ControlOp} (hloop : op ≠ .loop) (hblock : op ≠ .block) (fuel : Nat)
    {args args' : List Node} (h : Node.AllLike names places args args') :
    P.Holds Eq (fun ev => op.perform lib fuel ev args) (fun ev => op.perform lib' fuel ev args') := by
  cases op with
  | cond => exact L.firstClause h
  | all => exact L.conjunction h _
  | any => exact L.disjunction h _
  | negate =>
    obtain _ | ⟨hnode, _⟩ := h
    · exact L.fail _
    · exact L.andThen (L.evaluate hnode) fun value => L.pure rfl
  | loop => exact absurd rfl hloop
  | block => exact absurd rfl hblock
  | leave =>
    obtain _ | ⟨hnode, _⟩ := h
    · exact L.leaveWith _
    · exact L.andThen (L.evaluate hnode) fun value => L.leaveWith value
  | succeed => exact L.raise _
  | refuse => exact L.raise _
  | apply =>
    refine L.andThen (L.evalAll h) fun values => ?_
    cases values with
    | nil => exact L.fail _
    | cons callee values => exact L.call callee values

/-! ### Variables and numbers -/

theorem requireBound (name : String) (found : Option Value) :
    P.Holds Eq (fun _ => requireBound name found) (fun _ => requireBound name found) := by
  cases found with
  | none => exact L.fail _
  | some value => exact L.pure rfl

theorem binding (op : VariableOp) {args args' : List Node}
    (h : Node.AllLike names places args args') :
    P.Holds Eq (fun ev => op.perform lib ev args) (fun ev => op.perform lib' ev args') := by
  obtain _ | ⟨htarget, hrest⟩ := h
  · cases op <;> exact L.fail _
  cases op with
  | assign =>
    obtain _ | ⟨hnode, _⟩ := hrest
    · exact L.fail _
    · refine L.andThen (L.literalName _ htarget) fun name => ?_
      refine L.andThen (L.evaluate hnode) fun value => ?_
      exact L.andThen (L.modifyFrame _) fun _ => L.pure rfl
  | assignGlobal =>
    obtain _ | ⟨hnode, _⟩ := hrest
    · exact L.fail _
    · refine L.andThen (L.literalName _ htarget) fun name => ?_
      refine L.andThen (L.evaluate hnode) fun value => ?_
      exact L.andThen (L.setGlobal name value) fun _ => L.pure rfl
  | value => exact L.andThen (L.literalName _ htarget) fun name => L.resolveName rfl
  | localValue =>
    refine L.andThen (L.literalName _ htarget) fun name => ?_
    exact L.andThen (L.readFrame (·.get? name)) fun found => L.requireBound name found
  | globalValue =>
    refine L.andThen (L.literalName _ htarget) fun name => ?_
    exact L.andThen (L.readWorld fun _ _ hw => hw.global? name) fun found =>
      L.requireBound name found
  | isAssigned =>
    refine L.andThen (L.literalName _ htarget) fun name => ?_
    exact L.andThen (L.readFrame (·.isAssigned name)) fun found => L.pure rfl

theorem arithmetic (op : ArithmeticOp) {args args' : List Node}
    (h : Node.AllLike names places args args') :
    P.Holds Eq (fun ev => op.perform ev args) (fun ev => op.perform ev args') := by
  cases op with
  | fold f => exact L.andThen (L.evalAll h) fun values => L.ofExcept _
  | extreme which => exact L.andThen (L.evalAll h) fun values => L.ofExcept _
  | remainder =>
    obtain _ | ⟨hleft, _ | ⟨hright, _⟩⟩ := h
    · exact L.fail _
    · exact L.fail _
    · refine L.andThen (L.evaluate hleft) fun a => L.andThen (L.evaluate hright) fun b => ?_
      refine L.andThen (L.expectInt _ a) fun x => L.andThen (L.expectInt _ b) fun y => ?_
      exact L.andThen (L.ofExcept _) fun n => L.pure rfl
  | absolute =>
    obtain _ | ⟨hnode, _⟩ := h
    · exact L.fail _
    · exact L.andThen (L.evaluate hnode) fun value => L.ofExcept _
  | random =>
    obtain _ | ⟨hnode, _⟩ := h
    · exact L.fail _
    · refine L.andThen (L.evaluate hnode) fun value => L.andThen (L.expectInt _ value) fun limit => ?_
      exact choose (fun _ => L.fail _) fun _ => L.andThen (L.random limit) fun n => L.pure rfl
  | chance =>
    obtain _ | ⟨hnode, _⟩ := h
    · exact L.fail _
    · refine L.andThen (L.evaluate hnode) fun value => L.andThen (L.expectInt _ value) fun chance => ?_
      exact L.andThen (L.random 100) fun n => L.pure rfl

theorem anyEqual (first : Value) {nodes nodes' : List Node}
    (h : Node.AllLike names places nodes nodes') :
    P.Holds Eq (fun ev => anyEqual ev first nodes) (fun ev => anyEqual ev first nodes') := by
  induction h with
  | nil => exact L.pure rfl
  | cons hnode _ ih =>
    exact L.andThen (L.evaluate hnode) fun candidate =>
      choose (fun _ => L.pure rfl) fun _ => ih

theorem compare (op : CompareOp) {args args' : List Node}
    (h : Node.AllLike names places args args') :
    P.Holds Eq (fun ev => op.perform ev args) (fun ev => op.perform ev args') := by
  obtain _ | ⟨hnode, hrest⟩ := h
  · cases op <;> exact L.fail _
  cases op with
  | equal =>
    exact L.andThen (L.evaluate hnode) fun first =>
      L.andThen (L.anyEqual first hrest) fun found => L.pure rfl
  | differ =>
    exact L.andThen (L.evaluate hnode) fun first =>
      L.andThen (L.anyEqual first hrest) fun found => L.pure rfl
  | order which =>
    obtain _ | ⟨hright, _⟩ := hrest
    · exact L.fail _
    · refine L.andThen (L.evaluate hnode) fun a => L.andThen (L.evaluate hright) fun b => ?_
      exact L.andThen (L.ofExcept _) fun ordering => L.pure rfl
  | isZero => exact L.andThen (L.evaluate hnode) fun value => L.pure rfl
  | isOne => exact L.andThen (L.evaluate hnode) fun value => L.pure rfl

/-! ### Objects -/

theorem verbMatches {nodes nodes' : List Node} (h : Node.AllLike names places nodes nodes') :
    P.Holds Eq (fun ev => verbMatches ev nodes) (fun ev => verbMatches ev nodes') := by
  induction h with
  | nil => exact L.pure rfl
  | cons hnode _ ih =>
    refine L.andThen (L.literalName _ hnode) fun name => ?_
    refine L.andThen (L.readWorld fun _ _ hw => congrArg _ hw.slots) fun action => ?_
    exact choose (fun _ => L.pure rfl) fun _ => ih

theorem slotMatches (slot : Slot) {nodes nodes' : List Node}
    (h : Node.AllLike names places nodes nodes') :
    P.Holds Eq (fun ev => slotMatches ev slot nodes) (fun ev => slotMatches ev slot nodes') := by
  induction h with
  | nil => exact L.pure rfl
  | cons hnode _ ih =>
    refine L.andThen (L.evaluate hnode) fun candidate => ?_
    refine L.andThen (L.readWorld fun _ _ hw => by rw [hw.slots]) fun held => ?_
    exact choose (fun _ => L.pure rfl) fun _ => ih

theorem holderArg {nodes nodes' : List Node} (h : Node.AllLike names places nodes nodes') :
    P.Holds Eq (fun ev => holderArg lib ev nodes) (fun ev => holderArg lib' ev nodes') := by
  obtain _ | ⟨hnode, _⟩ := h
  · simp only [TextAdventure.holderArg, L.library.actorGlobal]
    exact L.readWorld fun _ _ hw => by simp only [World.global, hw.global?]
  · exact L.evaluate hnode

theorem object (op : ObjectOp) {args args' : List Node}
    (h : Node.AllLike names places args args') :
    P.Holds Eq (fun ev => op.perform lib ev args) (fun ev => op.perform lib' ev args') := by
  obtain _ | ⟨htarget, hrest⟩ := h
  · cases op
    case isVerb => exact L.andThen (L.verbMatches .nil) fun found => L.pure rfl
    case isDirect => exact L.andThen (L.slotMatches _ .nil) fun found => L.pure rfl
    case isIndirect => exact L.andThen (L.slotMatches _ .nil) fun found => L.pure rfl
    all_goals exact L.fail _
  cases op with
  | setFlag =>
    obtain _ | ⟨hnode, _⟩ := hrest
    · exact L.fail _
    · refine L.andThen (L.objectArg _ htarget) fun o => L.andThen (L.nameArg _ hnode) fun flag => ?_
      exact L.andThen (L.changeWorld (.setFlag trivial flag)) fun _ => L.pure rfl
  | clearFlag =>
    obtain _ | ⟨hnode, _⟩ := hrest
    · exact L.fail _
    · refine L.andThen (L.objectArg _ htarget) fun o => L.andThen (L.nameArg _ hnode) fun flag => ?_
      exact L.andThen (L.changeWorld (.clearFlag trivial flag)) fun _ => L.pure rfl
  | hasFlag =>
    obtain _ | ⟨hnode, _⟩ := hrest
    · exact L.fail _
    · refine L.andThen (L.objectArg _ htarget) fun o => L.andThen (L.nameArg _ hnode) fun flag => ?_
      exact L.andThen (L.readWorld fun _ _ hw => hw.flag o flag) fun _ => L.pure rfl
  | getProperty =>
    obtain _ | ⟨hnode, _⟩ := hrest
    · exact L.fail _
    · refine L.andThen (L.objectArg _ htarget) fun o => L.andThen (L.nameArg _ hnode) fun name => ?_
      exact L.readWorld fun _ _ hw => hw.property o name
  | putProperty =>
    obtain _ | ⟨hnode, _ | ⟨hcontent, _⟩⟩ := hrest
    · exact L.fail _
    · exact L.fail _
    · refine L.andThen (L.objectArg _ htarget) fun o => L.andThen (L.nameArg _ hnode) fun name => ?_
      refine L.andThen (L.evaluate hcontent) fun value => ?_
      exact L.andThen (L.changeWorld (.putProperty trivial name trivial)) fun _ => L.pure rfl
  | move =>
    obtain _ | ⟨hnode, _⟩ := hrest
    · exact L.fail _
    · refine L.andThen (L.objectArg _ htarget) fun o => L.andThen (L.objectArg _ hnode) fun p => ?_
      exact L.andThen (L.changeWorld (.move trivial trivial)) fun _ => L.pure rfl
  | remove =>
    refine L.andThen (L.objectArg _ htarget) fun o => ?_
    exact L.andThen (L.changeWorld (.remove trivial)) fun _ => L.pure rfl
  | parent =>
    refine L.andThen (L.objectArg _ htarget) fun o => ?_
    exact L.andThen (L.readWorld fun _ _ hw => hw.parent? o) fun _ => L.pure rfl
  | isIn =>
    obtain _ | ⟨hnode, _⟩ := hrest
    · exact L.fail _
    · refine L.andThen (L.objectArg _ htarget) fun o => L.andThen (L.objectArg _ hnode) fun p => ?_
      exact L.andThen (L.readWorld fun _ _ hw => hw.parent? o) fun _ => L.pure rfl
  | firstChild =>
    refine L.andThen (L.objectArg _ htarget) fun o => ?_
    exact L.andThen (L.readWorld fun _ _ hw => hw.firstChild? o) fun _ => L.pure rfl
  | nextSibling =>
    refine L.andThen (L.objectArg _ htarget) fun o => ?_
    exact L.andThen (L.readWorld fun _ _ hw => hw.nextSibling? o) fun _ => L.pure rfl
  | isHeld =>
    refine L.andThen (L.objectArg _ htarget) fun o => L.andThen (L.holderArg hrest) fun holder => ?_
    cases holder.object? with
    | some p => exact L.andThen (L.readWorld fun _ _ hw => hw.isAncestor p o) fun _ => L.pure rfl
    | none => exact L.pure rfl
  | isVerb => exact L.andThen (L.verbMatches (.cons htarget hrest)) fun found => L.pure rfl
  | isDirect => exact L.andThen (L.slotMatches _ (.cons htarget hrest)) fun found => L.pure rfl
  | isIndirect => exact L.andThen (L.slotMatches _ (.cons htarget hrest)) fun found => L.pure rfl

/-! ### Output -/

theorem printObject (operation : String) (value : Value) :
    P.Holds Eq (fun _ => printObject operation value) (fun _ => printObject operation value) :=
  L.andThen (L.expectObject operation value) fun o =>
    L.andThen (L.readWorld fun _ _ hw => hw.describe o) fun text => L.print text

theorem printInt (operation : String) (value : Value) :
    P.Holds Eq (fun _ => printInt operation value) (fun _ => printInt operation value) :=
  L.andThen (L.expectInt operation value) fun _ => L.print _

/-- Prints the value of a node and goes on. -/
theorem printValue {γ δ : Type} {U : γ → δ → Prop} {node node' : Node}
    (h : node.Like names places node') {next : Scheme γ} {next' : Scheme δ}
    (hnext : P.Holds U next next') :
    P.Holds U
      (fun ev => do
        let value ← ev node
        Run.print (← Run.readWorld (·.render value))
        next ev)
      (fun ev => do
        let value ← ev node'
        Run.print (← Run.readWorld (·.render value))
        next' ev) :=
  L.andThen (L.evaluate h) fun value =>
    L.andThen (L.readWorld fun _ _ hw => hw.render value) fun text =>
      L.andThen (L.print text) fun _ => hnext

theorem ofNode?_eq {node node' : Node} (h : node.Like names places node') :
    TellMarker.ofNode? node = TellMarker.ofNode? node' := by
  have hname := h.atom?
  simp only [TellMarker.ofNode?]
  generalize node.atom? = found at hname ⊢
  generalize node'.atom? = found' at hname ⊢
  obtain hname | _ := hname
  · simp only [Option.map_some, L.canonical hname]
  · rfl

theorem tellItems : ∀ {nodes nodes' : List Node}, Node.AllLike names places nodes nodes' →
    P.Holds Eq (fun ev => tellItems ev nodes) (fun ev => tellItems ev nodes')
  | [], _, .nil => L.pure rfl
  | node :: rest, _, .cons hnode hrest => by
    have hmarker' := L.ofNode?_eq hnode
    rcases hmarker : TellMarker.ofNode? node with _ | marker
    · rw [hmarker] at hmarker'
      simp only [TextAdventure.tellItems.eq_def _ (_ :: _), hmarker, ← hmarker']
      exact L.printValue hnode (tellItems hrest)
    rw [hmarker] at hmarker'
    -- a marker other than a line break takes the node after it along
    cases marker with
    | newline =>
      simp only [TextAdventure.tellItems.eq_def _ (_ :: _), hmarker, ← hmarker']
      exact L.andThen (L.print _) fun _ => tellItems hrest
    | object =>
      obtain _ | ⟨htarget, hrest⟩ := hrest
      · simp only [TextAdventure.tellItems.eq_def _ (_ :: _), hmarker, ← hmarker']
        exact L.fail _
      · simp only [TextAdventure.tellItems.eq_def _ (_ :: _), hmarker, ← hmarker']
        refine L.andThen (L.evaluate htarget) fun value => ?_
        exact L.andThen (L.printObject _ value) fun _ => tellItems hrest
    | number =>
      obtain _ | ⟨htarget, hrest⟩ := hrest
      · simp only [TextAdventure.tellItems.eq_def _ (_ :: _), hmarker, ← hmarker']
        exact L.fail _
      · simp only [TextAdventure.tellItems.eq_def _ (_ :: _), hmarker, ← hmarker']
        refine L.andThen (L.evaluate htarget) fun value => ?_
        exact L.andThen (L.printInt _ value) fun _ => tellItems hrest

theorem output (op : OutputOp) {args args' : List Node}
    (h : Node.AllLike names places args args') :
    P.Holds Eq (fun ev => op.perform ev args) (fun ev => op.perform ev args') := by
  cases op with
  | tell => exact L.tellItems h
  | newline => exact L.andThen (L.print _) fun _ => L.pure rfl
  | quit => exact L.andThen L.quit fun _ => L.pure rfl
  | print =>
    obtain _ | ⟨hnode, _⟩ := h
    · exact L.fail _
    · exact L.printValue hnode (L.pure rfl)
  | printText =>
    obtain _ | ⟨hnode, _⟩ := h
    · exact L.fail _
    · exact L.printValue hnode (L.pure rfl)
  | describe =>
    obtain _ | ⟨hnode, _⟩ := h
    · exact L.fail _
    · refine L.andThen (L.evaluate hnode) fun value => ?_
      exact L.andThen (L.printObject _ value) fun _ => L.pure rfl
  | number =>
    obtain _ | ⟨hnode, _⟩ := h
    · exact L.fail _
    · refine L.andThen (L.evaluate hnode) fun value => ?_
      exact L.andThen (L.printInt _ value) fun _ => L.pure rfl
  | character =>
    obtain _ | ⟨hnode, _⟩ := h
    · exact L.fail _
    · refine L.andThen (L.evaluate hnode) fun value => L.andThen (L.ofExcept _) fun c => ?_
      exact L.andThen (L.print _) fun _ => L.pure rfl

/-! ### Tables -/

omit L in
theorem mapM_atom? {flags flags' : List Node} (h : Node.AllLike names places flags flags') :
    Option.Rel (List.Forall₂ names) (flags.mapM Node.atom?) (flags'.mapM Node.atom?) := by
  induction h with
  | nil => exact .some .nil
  | @cons flag flag' flags flags' hflag _ ih =>
    have hname := hflag.atom?
    simp only [List.mapM_cons]
    generalize flag.atom? = first at hname ⊢
    generalize flag'.atom? = first' at hname ⊢
    generalize flags.mapM Node.atom? = rest at ih ⊢
    generalize flags'.mapM Node.atom? = rest' at ih ⊢
    obtain hname | _ := hname
    · obtain hrest | _ := ih
      · exact .some (.cons hname hrest)
      · exact .none
    · exact .none

theorem any_sameLetters_eq {words words' : List String} (h : List.Forall₂ names words words')
    (word : String) : words.any (sameLetters · word) = words'.any (sameLetters · word) := by
  induction h with
  | nil => rfl
  | @cons s s' _ _ hname _ ih =>
    have hsame : sameLetters s word = sameLetters s' word := by
      simp only [sameLetters, L.canonical hname]
    simp only [List.any_cons, hsame, ih]

theorem tableFlags_like {args args' : List Node} (h : Node.AllLike names places args args') :
    (tableFlags args).1 = (tableFlags args').1 ∧
      Node.AllLike names places (tableFlags args).2 (tableFlags args').2 := by
  obtain _ | ⟨hfirst, hrest⟩ := h
  · exact ⟨rfl, .nil⟩
  have hargs := List.Forall₂.cons hfirst hrest
  cases hfirst with
  | list hflags hs =>
    have hwords := mapM_atom? hflags
    obtain _ | ⟨hflag, hflags⟩ := hflags
    · exact ⟨rfl, hargs⟩
    simp only [tableFlags]
    revert hwords
    generalize List.mapM Node.atom? _ = words
    generalize List.mapM Node.atom? _ = words'
    rintro (hwords | _)
    · exact ⟨L.any_sameLetters_eq hwords _, hrest⟩
    · exact ⟨rfl, hargs⟩
  | _ => exact ⟨rfl, hargs⟩

theorem tableOf (counted : Bool) {args args' : List Node}
    (h : Node.AllLike names places args args') :
    P.Holds Eq (fun ev => tableOf ev counted args) (fun ev => tableOf ev counted args') := by
  obtain ⟨hflagged, hitems⟩ := L.tableFlags_like h
  simp only [TextAdventure.tableOf, hflagged]
  refine L.andThen (L.evalAll hitems) fun values => ?_
  exact choose (fun _ => L.makeTable _) fun _ => L.makeTable _

theorem fillValue {nodes nodes' : List Node} (h : Node.AllLike names places nodes nodes') :
    P.Holds Eq (fun ev => fillValue ev nodes) (fun ev => fillValue ev nodes') := by
  obtain _ | ⟨hnode, _⟩ := h
  · exact L.pure rfl
  · exact L.evaluate hnode

theorem makeFilled (count : Nat) (fill : Value) :
    P.Holds Eq (fun _ => makeFilled lib count fill) (fun _ => makeFilled lib' count fill) := by
  simp only [TextAdventure.makeFilled, ← L.library.maxCells]
  exact choose (fun _ => L.makeTable _) fun _ => L.exhaust _

theorem filledTable {args args' : List Node} (h : Node.AllLike names places args args') :
    P.Holds Eq (fun ev => filledTable lib ev args) (fun ev => filledTable lib' ev args') := by
  obtain ⟨_, hitems⟩ := L.tableFlags_like h
  simp only [TextAdventure.filledTable]
  generalize (tableFlags args).2 = items at hitems ⊢
  generalize (tableFlags args').2 = items' at hitems ⊢
  obtain _ | ⟨hnode, hrest⟩ := hitems
  · exact L.pure rfl
  · refine L.andThen (L.evaluate hnode) fun value => L.andThen (L.expectInt _ value) fun count => ?_
    exact L.andThen (L.fillValue hrest) fun fill => L.makeFilled _ fill

theorem readCell {target target' node node' : Node} (ht : target.Like names places target')
    (hn : node.Like names places node') :
    P.Holds Eq (fun ev => readCell ev target node) (fun ev => readCell ev target' node') := by
  refine L.andThen (L.evaluate ht) fun table => L.andThen (L.evaluate hn) fun index => ?_
  refine L.andThen (L.expectTable _ table) fun t => L.andThen (L.expectInt _ index) fun i => ?_
  exact L.andThen (L.readWorld fun _ _ hw => hw.tableGet t i.toInt) fun e => L.ofExcept e

theorem writeCell (operation : String) (convert : Value → Value)
    {target target' node node' content content' : Node} (ht : target.Like names places target')
    (hn : node.Like names places node') (hc : content.Like names places content') :
    P.Holds Eq (fun ev => writeCell ev operation convert target node content)
      (fun ev => writeCell ev operation convert target' node' content') := by
  refine L.andThen (L.evaluate ht) fun table => L.andThen (L.evaluate hn) fun index => ?_
  refine L.andThen (L.evaluate hc) fun value => ?_
  refine L.andThen (L.expectTable _ table) fun t => L.andThen (L.expectInt _ index) fun i => ?_
  exact L.andThen (L.changeWorld (.tablePut trivial i.toInt trivial)) fun _ => L.pure rfl

theorem table (op : TableOp) {args args' : List Node}
    (h : Node.AllLike names places args args') :
    P.Holds Eq (fun ev => op.perform lib ev args) (fun ev => op.perform lib' ev args') := by
  cases op with
  | make => exact L.tableOf false h
  | makeCounted => exact L.tableOf true h
  | fill => exact L.filledTable h
  | get =>
    obtain _ | ⟨htarget, _ | ⟨hnode, _⟩⟩ := h
    · exact L.fail _
    · exact L.fail _
    · exact L.readCell htarget hnode
  | getByte =>
    obtain _ | ⟨htarget, _ | ⟨hnode, _⟩⟩ := h
    · exact L.fail _
    · exact L.fail _
    · exact L.readCell htarget hnode
  | put =>
    obtain _ | ⟨htarget, _ | ⟨hnode, _ | ⟨hcontent, _⟩⟩⟩ := h
    · exact L.fail _
    · exact L.fail _
    · exact L.fail _
    · exact L.writeCell _ _ htarget hnode hcontent
  | putByte =>
    obtain _ | ⟨htarget, _ | ⟨hnode, _ | ⟨hcontent, _⟩⟩⟩ := h
    · exact L.fail _
    · exact L.fail _
    · exact L.fail _
    · exact L.writeCell _ _ htarget hnode hcontent

/-! ### Evaluation -/

theorem perform {op : Operation} (hloop : op ≠ .control .loop) (hblock : op ≠ .control .block)
    (fuel : Nat) {args args' : List Node} (h : Node.AllLike names places args args') :
    P.Holds Eq (fun ev => op.perform lib fuel ev args) (fun ev => op.perform lib' fuel ev args') := by
  cases op with
  | control op =>
    exact L.control (fun he => hloop (congrArg _ he)) (fun he => hblock (congrArg _ he)) fuel h
  | binding op => exact L.binding op h
  | arithmetic op => exact L.arithmetic op h
  | compare op => exact L.compare op h
  | object op => exact L.object op h
  | output op => exact L.output op h
  | table op => exact L.table op h

/-- A routine is called by its name in any letter case. -/
theorem callRoutine {name name' : String} (h : TextAdventure.canonical name =
    TextAdventure.canonical name') (args : List Value) :
    P.Holds Eq (fun ev => callRoutine lib ev name args)
      (fun ev => callRoutine lib' ev name' args) := by
  have hcall : ∀ ev, TextAdventure.callRoutine lib' ev name' args =
      TextAdventure.callRoutine lib' ev name args := by
    intro ev
    simp only [TextAdventure.callRoutine, RoutineTable.lookup?, h]
  simp only [hcall]
  exact L.call (.routine name) args

theorem dispatch {operator operator' : String} (hoperator : names operator operator')
    (hloop : lib.operations.lookup? operator ≠ some (.control .loop))
    (hblock : lib.operations.lookup? operator ≠ some (.control .block)) (fuel : Nat)
    {args args' : List Node} (h : Node.AllLike names places args args') :
    P.Holds Eq (fun ev => dispatch lib fuel ev operator args)
      (fun ev => dispatch lib' fuel ev operator' args') := by
  have hname := L.canonical hoperator
  have hoperation : lib'.operations.lookup? operator' = lib.operations.lookup? operator := by
    simp only [Registry.lookup?, ← L.library.operations, hname]
  have hroutine := L.lookup?_like hname
  simp only [TextAdventure.dispatch, hoperation]
  generalize lib.operations.lookup? operator = found at hloop hblock ⊢
  cases found with
  | some op =>
    rw [← h.length_eq]
    refine choose (fun _ => L.fail _) fun _ => L.perform ?_ ?_ fuel h
    · exact fun he => hloop (congrArg some he)
    · exact fun he => hblock (congrArg some he)
  | none =>
    generalize lib.routines.lookup? operator = routine at hroutine ⊢
    generalize lib'.routines.lookup? operator' = routine' at hroutine ⊢
    obtain _ | _ := hroutine
    · exact L.andThen (L.evalAll h) fun values => L.callRoutine hname values
    · simp only [hname]
      exact L.fail _

omit L in
mutual

theorem quote_eq (hcanonical : ∀ {s s'}, names s s' →
    TextAdventure.canonical s = TextAdventure.canonical s') :
    ∀ {node node' : Node}, node.Like names places node' → quote node = quote node'
  | .form _ args _, _, .form hoperator hargs _ => by
    simp only [quote, Value.ofName, hcanonical hoperator, quoteAll_eq hcanonical hargs]
  | .list items _, _, .list hitems _ => by simp only [quote, quoteAll_eq hcanonical hitems]
  | .empty _, _, .empty _ => rfl
  | .atom _ _, _, .atom hname _ => by simp only [quote, Value.ofName, hcanonical hname]
  | .reference _ _ _, _, .reference _ hname _ => by
    simp only [quote, Value.ofName, hcanonical hname]
  | .literal _ _, _, .literal _ _ => rfl
  | .marked _ body _, _, .marked _ hbody _ => by simp only [quote, quote_eq hcanonical hbody]

theorem quoteAll_eq (hcanonical : ∀ {s s'}, names s s' →
    TextAdventure.canonical s = TextAdventure.canonical s') :
    ∀ {nodes nodes' : List Node}, Node.AllLike names places nodes nodes' →
      quoteAll nodes = quoteAll nodes'
  | [], _, .nil => rfl
  | node :: nodes, _, .cons hnode hnodes => by
    simp only [quoteAll, quote_eq hcanonical hnode, quoteAll_eq hcanonical hnodes]

end

theorem taggedValue {tag tag' : String} (htag : names tag tag') {body body' : Node}
    (h : body.Like names places body') :
    P.Holds Eq (fun ev => taggedValue ev tag body) (fun ev => taggedValue ev tag' body') := by
  simp only [TextAdventure.taggedValue, L.canonical htag]
  exact choose (fun _ => L.evaluate h) fun _ => choose (fun _ => L.pure rfl) fun _ => L.fail _

/-- What holds of evaluating like nodes, and of calls, holds of the work of like nodes that are no
blocks. -/
theorem evalStep {node node' : Node} (h : node.Like names places node') (hblock : ¬ lib.IsBlock node)
    (fuel : Nat) :
    P.Holds Eq (fun ev => evalStep lib fuel ev node) (fun ev => evalStep lib' fuel ev node') := by
  cases h with
  | form hoperator hargs _ =>
    refine L.dispatch hoperator (fun hop => hblock ?_) (fun hop => hblock ?_) fuel hargs
    · exact ⟨.loop, hop, .inr rfl⟩
    · exact ⟨.block, hop, .inl rfl⟩
  | list hitems _ => exact L.andThen (L.evalAll hitems) fun values => L.pure rfl
  | empty _ => exact L.pure rfl
  | @atom name name' _ _ hname _ =>
    have hletters : sameLetters name "T" = sameLetters name' "T" := by
      simp only [sameLetters, L.canonical hname]
    refine L.pure ?_
    rw [atomValue, atomValue, hletters, Value.ofName, Value.ofName, L.canonical hname]
  | reference _ hname _ => exact L.resolveName (L.canonical hname)
  | literal value _ => exact L.pure rfl
  | marked hmarker hbody _ =>
    cases hmarker with
    | quote => exact L.pure (quote_eq L.canonical hbody)
    | quasiquote => exact L.pure (quote_eq L.canonical hbody)
    | splice => exact L.evaluate hbody
    | percent => exact L.evaluate hbody
    | tag htag => exact L.taggedValue htag hbody

end PairLogic

end TextAdventure
