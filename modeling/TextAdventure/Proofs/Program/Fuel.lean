import TextAdventure.Proofs.Program.Transition

/-!
Fuel: what more of it changes, and when there is enough.

Fuel stands in the way of evaluation only where evaluation would go on for ever.  More of it
never changes an answer, and a program in which nothing loops comes to an end: nodes are finite,
and calls nest no deeper than the library allows.  The end may be that a table does not fit into
memory, and then there is no answer either.

* `eval_eq_of_le` — an answer stays the same with more fuel;
* `Node.Calls`, `LoopFree` — some form in a node calls an operation, and none calls the loop;
* `eval_finishes` — without loops every evaluation finishes, whatever the routines call, and for
  want of memory only where something fills a table;
* `eval_fill_beyond_memory` — which does happen;
* `eval_emptyLoop` — a loop with nothing in it does not.

Design notes.  At depth `d`, with routines whose nodes have at most the height `n`, a node needs
fuel for its own height and for `n + 1` more at each of the `maxDepth - d` calls that may still
be nested in one another.  Moving an object looks for its container's ancestors and takes no fuel
for it: the search goes up no further than there are objects, and in a forest, which every world
that can come about is, a longer one would find no more.
-/

namespace TextAdventure

/-! ### More fuel -/

/-- With more fuel an action ends as it does with some, unless that is too little; and then the
value it yields, if it yields one, has a property. -/
def Run.Lasts {α : Type} (V : α → Prop) (act act' : Run α) : Prop :=
  ∀ m, (act m).1 = .exhausted .fuel ∨ act' m = act m ∧ ∀ a, (act m).1 = .done a → V a

namespace Run.Lasts

variable {α β : Type} {V : α → Prop} {U : β → Prop}

theorem refl {act : Run α} (h : ∀ m a, (act m).1 = .done a → V a) : Run.Lasts V act act :=
  fun m => .inr ⟨rfl, h m⟩

theorem bind {act act' : Run α} {next next' : α → Run β} (hact : Run.Lasts V act act')
    (hnext : ∀ a, V a → Run.Lasts U (next a) (next' a)) :
    Run.Lasts U (act >>= next) (act' >>= next') := by
  intro m
  have hfirst := hact m
  rcases hm : act m with ⟨a | s | f | what, m'⟩
  all_goals rw [hm] at hfirst
  · obtain ⟨hsame, hvalue⟩ := hfirst.resolve_left nofun
    rw [bind_of_done hm, bind_of_done hsame]
    exact hnext a (hvalue a rfl) m'
  · obtain ⟨hsame, -⟩ := hfirst.resolve_left nofun
    rw [bind_of_signal hm, bind_of_signal hsame]
    exact .inr ⟨rfl, nofun⟩
  · obtain ⟨hsame, -⟩ := hfirst.resolve_left nofun
    rw [bind_of_failed hm, bind_of_failed hsame]
    exact .inr ⟨rfl, nofun⟩
  · rw [bind_of_exhausted hm]
    cases what with
    | fuel => exact .inl rfl
    | memory cells =>
      obtain ⟨hsame, -⟩ := hfirst.resolve_left nofun
      rw [bind_of_exhausted hsame]
      exact .inr ⟨rfl, nofun⟩

theorem forever {act act' : Run Unit} (hact : Run.Lasts (fun _ => True) act act')
    {fuel fuel' : Nat} (hfuel : fuel ≤ fuel') :
    Run.Lasts (fun _ => True) (Run.forever act fuel) (Run.forever act' fuel') := by
  induction fuel generalizing fuel' with
  | zero => exact fun _ => .inl rfl
  | succ fuel ih =>
    obtain ⟨more, rfl⟩ : ∃ more, fuel' = more + 1 := ⟨fuel' - 1, by omega⟩
    rw [Run.forever_succ, Run.forever_succ]
    exact bind hact fun _ _ => ih (by omega)

variable {act act' : Run Value} (hact : Run.Lasts (fun _ => True) act act')
include hact

theorem collapse : Run.Lasts (fun _ => True) act.collapse act'.collapse := by
  intro m
  rcases hact m with hout | ⟨hsame, -⟩
  · exact .inl (by rw [Run.fst_collapse, hout]; rfl)
  · exact .inr ⟨by rw [Run.collapse, Run.collapse, hsame], fun _ _ => trivial⟩

theorem withinBlock : Run.Lasts (fun _ => True) act.withinBlock act'.withinBlock := by
  intro m
  rcases hact { m with frame := m.frame.openBlock } with hout | ⟨hsame, -⟩
  · exact .inl (by rw [Run.fst_withinBlock, hout]; rfl)
  · exact .inr ⟨by rw [Run.withinBlock, Run.withinBlock, hsame], fun _ _ => trivial⟩

theorem withinCall (name : String) :
    Run.Lasts (fun _ => True) (act.withinCall name) (act'.withinCall name) := by
  intro m
  rcases hact { m with frame := .forRoutine name, depth := m.depth + 1 } with hout | ⟨hsame, -⟩
  · exact .inl (by rw [Run.fst_withinCall, hout]; rfl)
  · exact .inr ⟨by rw [Run.withinCall, Run.withinCall, hsame], fun _ _ => trivial⟩

end Run.Lasts

/-- The judgement that more fuel does not change how an action ends. -/
def fuelJudgement : Judgement where
  Stage := Unit
  Later _ _ := True
  Deeper _ _ := True
  At _ _ := True
  Good _ _ := True
  Known _ _ := True
  Fails _ := True
  Permits _ := True
  Holds _ V act act' := Run.Lasts (V ()) act act'
  Head _ V act act' := Run.Lasts (V ()) act act'

theorem fuel_logic (lib : Library) : ProgramLogic fuelJudgement lib where
  good_later _ _ _ := trivial
  good_deeper _ _ _ := trivial
  good_plain _ := trivial
  good_list := ⟨fun _ _ _ => trivial, fun _ => trivial⟩
  known_later _ _ _ := trivial
  known_item _ _ _ := trivial
  known_routine _ _ _ _ _ _ := trivial
  fails _ := trivial
  gives _ := .of_forall (fun _ => trivial) _
  cell_fault _ _ _ _ _ _ := trivial
  pure ha := .refl fun _ _ hm => by cases hm; exact ha
  bind hact hnext := .bind hact (hnext () trivial)
  fail _ := .refl nofun
  returnTrue := .refl nofun
  returnFalse := .refl nofun
  leaveWith _ := .refl fun _ _ _ => trivial
  collapse hact := .collapse hact
  read _ hf := .refl fun m _ hm => by cases hm; exact hf m trivial
  print _ := .refl fun _ _ _ => trivial
  random _ := .refl fun _ _ _ => trivial
  quit := .refl fun _ _ _ => trivial
  assign _ _ _ := .refl fun _ _ _ => trivial
  setGlobal _ _ _ := .refl fun _ _ _ => trivial
  makeTable _ := .refl fun _ _ _ => trivial
  changeWorld _ := .refl fun _ _ _ => trivial
  noMemory _ _ _ _ := .refl nofun
  forever _ _ _ _ _ _ hfuel hact := .forever (hact () trivial) hfuel
  lift hact := hact
  andThen hact hnext := .bind hact (hnext () trivial)
  bindName _ _ _ _ := .refl fun _ _ _ => trivial
  withinBlock hact := .withinBlock hact
  withinCall name act act' _ hact m := by
    dsimp only
    split
    · exact .inr ⟨rfl, fun _ _ => trivial⟩
    · exact Run.Lasts.withinCall (hact () trivial) name m

theorem eval_lasts (lib : Library) {fuel fuel' : Nat} (hfuel : fuel ≤ fuel') (node : Node) :
    Run.Lasts (fun _ => True) (eval lib fuel node) (eval lib fuel' node) := by
  induction fuel generalizing fuel' node with
  | zero => exact fun _ => .inl rfl
  | succ fuel ih =>
    obtain ⟨more, rfl⟩ : ∃ more, fuel' = more + 1 := ⟨fuel' - 1, by omega⟩
    have hle : fuel ≤ more := by omega
    exact (fuel_logic lib).evalStep (s := ()) (fun _ node _ => ih hle node) (fun _ _ => trivial)
      (fun _ _ _ _ _ _ => trivial) hle

/-- An answer stays the same with more fuel. -/
theorem eval_eq_of_le {lib : Library} {fuel fuel' : Nat} (hfuel : fuel ≤ fuel') {node : Node}
    {m : Machine} (hm : (eval lib fuel node m).1 ≠ .exhausted .fuel) :
    eval lib fuel' node m = eval lib fuel node m :=
  ((eval_lasts lib hfuel node m).resolve_left hm).1

/-! ### Programs without loops -/

mutual

/-- The operators of the forms in a node, at any depth. -/
def Node.operators : Node → List String
  | .form operator args _ => operator :: Node.operatorsAll args
  | .list items _ => Node.operatorsAll items
  | .marked _ body _ => body.operators
  | _ => []

/-- The operators of the forms in some nodes. -/
def Node.operatorsAll : List Node → List String
  | [] => []
  | node :: nodes => node.operators ++ Node.operatorsAll nodes

end

/-- A form in a node, quoted or not, calls an operation. -/
def Node.Calls (lib : Library) (op : Operation) (node : Node) : Prop :=
  ∃ operator ∈ node.operators, lib.operations.lookup? operator = some op

/-- No form in a node, quoted or not, calls the loop. -/
def LoopFree (lib : Library) (node : Node) : Prop :=
  ∀ operator ∈ node.operators, lib.operations.lookup? operator ≠ some (.control .loop)

instance (lib : Library) (node : Node) : Decidable (LoopFree lib node) :=
  inferInstanceAs (Decidable (∀ operator ∈ node.operators, _))

theorem Node.Calls.not_loopFree {lib : Library} {node : Node}
    (h : node.Calls lib (.control .loop)) : ¬ LoopFree lib node := by
  obtain ⟨operator, hoperator, hloop⟩ := h
  exact fun hfree => hfree operator hoperator hloop

/-- The nodes of all routines of a library. -/
def Library.nodes (lib : Library) : List Node := lib.routines.entries.flatMap (·.2.nodes)

theorem Node.mem_operatorsAll {node : Node} {nodes : List Node} (hn : node ∈ nodes)
    {operator : String} (h : operator ∈ node.operators) : operator ∈ Node.operatorsAll nodes := by
  induction nodes with
  | nil => cases hn
  | cons first rest ih =>
    rw [Node.operatorsAll, List.mem_append]
    rcases List.mem_cons.mp hn with rfl | hn
    · exact .inl h
    · exact .inr (ih hn)

theorem Node.Calls.of_part {lib : Library} {op : Operation} {node part : Node}
    (hpart : part ∈ node.parts) (h : part.Calls lib op) : node.Calls lib op := by
  obtain ⟨operator, hoperator, hop⟩ := h
  refine ⟨operator, ?_, hop⟩
  cases node with
  | form name args span =>
    exact List.mem_cons_of_mem name (Node.mem_operatorsAll hpart hoperator)
  | list items span => exact Node.mem_operatorsAll hpart hoperator
  | marked marker body span =>
    obtain rfl := List.mem_singleton.mp hpart
    exact hoperator
  | _ => cases hpart

mutual

/-- How deep the nodes in a node nest. -/
def Node.height : Node → Nat
  | .form _ args _ => Node.heightAll args + 1
  | .list items _ => Node.heightAll items + 1
  | .marked _ body _ => body.height + 1
  | _ => 0

/-- The height of the highest of some nodes. -/
def Node.heightAll : List Node → Nat
  | [] => 0
  | node :: nodes => max node.height (Node.heightAll nodes)

end

theorem Node.height_le_heightAll {node : Node} {nodes : List Node} (h : node ∈ nodes) :
    node.height ≤ Node.heightAll nodes := by
  induction nodes with
  | nil => cases h
  | cons first rest ih =>
    rw [Node.heightAll]
    rcases List.mem_cons.mp h with rfl | h
    · exact Nat.le_max_left _ _
    · exact (ih h).trans (Nat.le_max_right _ _)

theorem Node.height_part {node part : Node} (h : part ∈ node.parts) :
    part.height < node.height := by
  cases node with
  | form name args span => exact Nat.lt_succ_of_le (Node.height_le_heightAll h)
  | list items span => exact Nat.lt_succ_of_le (Node.height_le_heightAll h)
  | marked marker body span =>
    obtain rfl := List.mem_singleton.mp h
    exact Nat.lt_succ_self _
  | _ => cases h

theorem Library.mem_nodes {lib : Library} {name : String} {routine : Routine}
    (h : lib.routines.lookup? name = some routine) {node : Node} (hn : node ∈ routine.nodes) :
    node ∈ lib.nodes :=
  List.mem_flatMap.mpr ⟨_, mem_of_findEntry h, hn⟩

/-! ### Enough fuel -/

/-- The fuel that the calls still possible at some depth may need: for each of them the height of
the highest node of a routine, and one more. -/
def Library.reserve (lib : Library) (depth : Nat) : Nat :=
  (lib.maxDepth - depth) * (Node.heightAll lib.nodes + 1)

/-- A call leaves fuel for a node of its routine and for the calls nested in it. -/
theorem Library.reserve_call {lib : Library} {depth : Nat} (hdepth : depth < lib.maxDepth)
    {node : Node} (hn : node ∈ lib.nodes) :
    node.height + lib.reserve (depth + 1) < lib.reserve depth := by
  have hle := Node.height_le_heightAll hn
  have hsplit : lib.maxDepth - depth = (lib.maxDepth - (depth + 1)) + 1 := by omega
  rw [reserve, reserve, hsplit, Nat.add_mul]
  omega

/-- At a given depth an action comes to an end, and at that depth; there is a lack of nothing but
of what is said, and the value it yields, if it yields one, has a property. -/
def Run.Finishes {α : Type} (depth : Nat) (Lacks : Shortage → Prop) (V : α → Prop) (act : Run α) :
    Prop :=
  ∀ m, m.depth = depth →
    (act m).2.depth = depth ∧ (∀ what, (act m).1 = .exhausted what → Lacks what) ∧
      ∀ a, (act m).1 = .done a → V a

namespace Run.Finishes

variable {α β : Type} {depth : Nat} {Lacks : Shortage → Prop} {V : α → Prop} {U : β → Prop}

theorem bind {act : Run α} {next : α → Run β} (hact : Run.Finishes depth Lacks V act)
    (hnext : ∀ a, V a → Run.Finishes depth Lacks U (next a)) :
    Run.Finishes depth Lacks U (act >>= next) := by
  intro m hm
  obtain ⟨hdepth, hlacks, hvalue⟩ := hact m hm
  rcases hrun : act m with ⟨a | s | f | what, m'⟩
  all_goals rw [hrun] at hdepth hlacks hvalue
  · rw [bind_of_done hrun]
    exact hnext a (hvalue a rfl) m' hdepth
  · rw [bind_of_signal hrun]
    exact ⟨hdepth, nofun, nofun⟩
  · rw [bind_of_failed hrun]
    exact ⟨hdepth, nofun, nofun⟩
  · rw [bind_of_exhausted hrun]
    refine ⟨hdepth, ?_, nofun⟩
    rintro _ ⟨⟩
    exact hlacks what rfl

theorem makeTable (cells : List Value) :
    Run.Finishes depth Lacks (fun _ => True) (TextAdventure.makeTable cells) := by
  intro m hm
  rw [TextAdventure.makeTable]
  rcases m.world.newTable cells with _ | made
  all_goals
    refine ⟨hm, fun what h => ?_, fun _ _ => trivial⟩
    cases h

theorem changeWorld (f : World → Except Fault World) :
    Run.Finishes depth Lacks (fun _ => True) (Run.changeWorld f) := by
  intro m hm
  rw [Run.changeWorld]
  rcases f m.world with _ | w
  all_goals
    refine ⟨hm, fun what h => ?_, fun _ _ => trivial⟩
    cases h

variable {act : Run Value}

theorem collapse (hact : Run.Finishes depth Lacks (fun _ => True) act) :
    Run.Finishes depth Lacks (fun _ => True) act.collapse := by
  intro m hm
  obtain ⟨hdepth, hlacks, -⟩ := hact m hm
  refine ⟨by rw [Run.snd_collapse]; exact hdepth, fun what h => ?_, fun _ _ => trivial⟩
  rw [Run.fst_collapse, Outcome.collapsed_eq_exhausted] at h
  exact hlacks what h

theorem withinBlock (hact : Run.Finishes depth Lacks (fun _ => True) act) :
    Run.Finishes depth Lacks (fun _ => True) act.withinBlock := by
  intro m hm
  obtain ⟨hdepth, hlacks, -⟩ := hact { m with frame := m.frame.openBlock } hm
  refine ⟨by rw [Run.snd_withinBlock]; exact hdepth, fun what h => ?_, fun _ _ => trivial⟩
  rw [Run.fst_withinBlock, Outcome.leftBlock_eq_exhausted] at h
  exact hlacks what h

theorem withinCall (hact : Run.Finishes (depth + 1) Lacks (fun _ => True) act) (name : String) :
    Run.Finishes depth Lacks (fun _ => True) (act.withinCall name) := by
  intro m hm
  obtain ⟨hdepth, hlacks, -⟩ :=
    hact { m with frame := .forRoutine name, depth := m.depth + 1 } (congrArg (· + 1) hm)
  refine ⟨?_, fun what h => ?_, fun _ _ => trivial⟩
  · rw [Run.snd_withinCall]
    show _ - 1 = depth
    rw [hdepth]
    rfl
  · rw [Run.fst_withinCall, Outcome.leftCall_eq_exhausted] at h
    exact hlacks what h

end Run.Finishes

/-- Among operations that may be called is that which fills tables, and more cells are asked for
than fit into memory. -/
def OutOfMemory (lib : Library) (permits : Operation → Prop) (what : Shortage) : Prop :=
  permits (.table .fill) ∧ ∃ cells, what = .memory cells ∧ lib.maxCells < cells

/-- The judgement that an action comes to an end, where nodes are evaluated with a given fuel and
call none but given operations.  Its stages are the depths for whose calls the fuel is enough. -/
def finishJudgement (lib : Library) (permits : Operation → Prop) (fuel : Nat) : Judgement where
  Stage := { depth : Nat // lib.reserve depth ≤ fuel }
  Later s t := s = t
  Deeper s t := s.1 < lib.maxDepth ∧ t.1 = s.1 + 1
  At s m := m.depth = s.1
  Good _ _ := True
  Known s node := (∀ op, node.Calls lib op → permits op) ∧ node.height + lib.reserve s.1 < fuel
  Fails _ := True
  Permits := permits
  Holds s V act _ := Run.Finishes s.1 (OutOfMemory lib permits) (V s) act
  Head s V act _ := Run.Finishes s.1 (OutOfMemory lib permits) (V s) act

section

variable {lib : Library} {permits : Operation → Prop} (hloop : ¬ permits (.control .loop))
  (hlib : ∀ node ∈ lib.nodes, ∀ op, node.Calls lib op → permits op)
include hloop hlib

theorem finish_logic (fuel : Nat) : ProgramLogic (finishJudgement lib permits fuel) lib where
  good_later _ _ _ := trivial
  good_deeper _ _ _ := trivial
  good_plain _ := trivial
  good_list := ⟨fun _ _ _ => trivial, fun _ => trivial⟩
  known_later h _ hn := h ▸ hn
  known_item {s items span} hlist {item} hi := by
    have hpart : item ∈ Node.parts (.list items span) := hi
    exact ⟨fun op h => hlist.1 op (.of_part hpart h),
      (Nat.add_lt_add_right (Node.height_part hpart) _).trans hlist.2⟩
  known_routine {s t} hdeeper _ _ hr _ hn := by
    have hnode := Library.mem_nodes hr hn
    refine ⟨hlib _ hnode, ?_⟩
    -- a node of a routine may be higher than the call, so the reserve pays for it
    rw [hdeeper.2]
    exact (Library.reserve_call hdeeper.1 hnode).trans_le s.2
  fails _ := trivial
  gives _ := .of_forall (fun _ => trivial) _
  cell_fault _ _ _ _ _ _ := trivial
  pure ha m hm := ⟨hm, nofun, fun _ h => by cases h; exact ha⟩
  bind hact hnext := .bind hact (hnext _ rfl)
  fail _ m hm := ⟨hm, nofun, nofun⟩
  returnTrue m hm := ⟨hm, nofun, nofun⟩
  returnFalse m hm := ⟨hm, nofun, nofun⟩
  leaveWith _ m hm := by
    rw [leaveWith_apply]
    exact ⟨hm, nofun, nofun⟩
  collapse hact := .collapse hact
  read _ hf m hm := ⟨hm, nofun, fun _ h => by cases h; exact hf m hm⟩
  print _ m hm := ⟨hm, nofun, fun _ _ => trivial⟩
  random _ m hm := ⟨hm, nofun, fun _ _ => trivial⟩
  quit m hm := ⟨hm, nofun, fun _ _ => trivial⟩
  assign _ _ _ m hm := ⟨hm, nofun, fun _ _ => trivial⟩
  setGlobal _ _ _ m hm := ⟨hm, nofun, fun _ _ => trivial⟩
  makeTable _ := .makeTable _
  changeWorld _ := .changeWorld _
  noMemory hfill _ cells hcells m hm := by
    refine ⟨hm, ?_, nofun⟩
    rintro _ ⟨⟩
    exact ⟨hfill, cells, rfl, hcells⟩
  forever hpermits := absurd hpermits hloop
  lift hact := hact
  andThen hact hnext := .bind hact (hnext _ rfl)
  bindName _ _ _ _ m hm := ⟨hm, nofun, fun _ _ => trivial⟩
  withinBlock hact := .withinBlock hact
  withinCall {s} name act act' _ hact m hm := by
    dsimp only
    split
    · exact ⟨hm, nofun, nofun⟩
    · rename_i hdepth
      have hlt : s.1 < lib.maxDepth := hm ▸ Nat.lt_of_not_le hdepth
      let t : { depth : Nat // lib.reserve depth ≤ fuel } :=
        ⟨s.1 + 1, (Nat.mul_le_mul_right _ (by omega)).trans s.2⟩
      exact Run.Finishes.withinCall (hact t ⟨hlt, rfl⟩) name m hm

/-- With fuel for a node and for the calls that may come, evaluating the node comes to an end. -/
theorem eval_finishes_of_reserve {fuel : Nat} {node : Node}
    (hnode : ∀ op, node.Calls lib op → permits op) {depth : Nat}
    (hfuel : node.height + lib.reserve depth < fuel) :
    Run.Finishes depth (OutOfMemory lib permits) (fun _ => True) (eval lib fuel node) := by
  -- the parts of the node have less height, and the nodes of routines are paid for by the reserve
  induction fuel generalizing node depth with
  | zero => cases hfuel
  | succ fuel ih =>
    let s : { depth : Nat // lib.reserve depth ≤ fuel } := ⟨depth, by omega⟩
    have hev : (finishJudgement lib permits fuel).Evaluates (eval lib fuel) (eval lib fuel) :=
      fun t node hn => ih hn.1 hn.2
    refine (finish_logic hloop hlib fuel).evalStep (s := s) hev
      (fun part hpart => ⟨fun op h => hnode op (.of_part hpart h), ?_⟩) ?_ (Nat.le_refl fuel)
    · have hlt := Node.height_part hpart
      show part.height + lib.reserve depth < fuel
      omega
    · rintro operator args span rfl op hop
      exact hnode op ⟨operator, List.mem_cons_self, hop⟩

end

/-- Loops are the only programs that go on for ever.  Where neither a node nor any default or body
of a routine calls the loop, evaluating the node comes to an end on every machine, and every further
fuel gives the same end; routines may call one another as they like.  The end is a value, a signal
or a failure unless a table is to be filled, by the node or by a routine, with more cells than fit
into memory. -/
theorem eval_finishes {lib : Library} (hlib : ∀ node ∈ lib.nodes, LoopFree lib node)
    {node : Node} (hnode : LoopFree lib node) (m : Machine) :
    ∃ fuel outcome m',
      (∀ what, outcome = .exhausted what → ∃ cells, what = .memory cells ∧ lib.maxCells < cells ∧
        ∃ part ∈ node :: lib.nodes, part.Calls lib (.table .fill)) ∧
      ∀ fuel', fuel ≤ fuel' → eval lib fuel' node m = (outcome, m') := by
  let permits op := ∃ part ∈ node :: lib.nodes, part.Calls lib op
  have hloop : ¬ permits (.control .loop) := by
    rintro ⟨part, hpart, hcalls⟩
    rcases List.mem_cons.mp hpart with rfl | hpart
    · exact hcalls.not_loopFree hnode
    · exact hcalls.not_loopFree (hlib part hpart)
  have hroutines : ∀ part ∈ lib.nodes, ∀ op, part.Calls lib op → permits op :=
    fun part hpart op h => ⟨part, List.mem_cons_of_mem node hpart, h⟩
  let fuel := node.height + lib.reserve m.depth + 1
  have hfinishes : Run.Finishes m.depth (OutOfMemory lib permits) (fun _ => True)
      (eval lib fuel node) :=
    eval_finishes_of_reserve hloop hroutines (fun op h => ⟨node, List.mem_cons_self, h⟩)
      (Nat.lt_succ_self _)
  obtain ⟨-, hlacks, -⟩ := hfinishes m rfl
  refine ⟨fuel, _, _, fun what h => ?_, fun fuel' hfuel => eval_eq_of_le hfuel fun h => ?_⟩
  · obtain ⟨hfill, cells, rfl, hcells⟩ := hlacks what h
    exact ⟨cells, rfl, hcells, hfill⟩
  · obtain ⟨-, cells, hwhat, -⟩ := hlacks _ h
    cases hwhat

/-- A library in which two routines do nothing but call each other. -/
def pingPong : Library :=
  { Library.standard with
    routines := .ofList
      [("PING", ⟨"PING", [], [], [.form "PONG" [] default]⟩),
        ("PONG", ⟨"PONG", [], [], [.form "PING" [] default]⟩)] }

/-- Two routines that call each other come to an end, and not for want of memory, since nothing in
them fills a table. -/
theorem eval_finishes_pingPong :
    ∃ fuel outcome m', (∀ what, outcome ≠ .exhausted what) ∧ ∀ fuel', fuel ≤ fuel' →
      eval pingPong fuel' (.form "PING" [] default) (.initial .ones) = (outcome, m') := by
  have hroutines : ∀ node ∈ pingPong.nodes, LoopFree pingPong node := by decide
  have hcall : LoopFree pingPong (.form "PING" [] default) := by decide
  obtain ⟨fuel, outcome, m', hlacks, hends⟩ := eval_finishes hroutines hcall (.initial .ones)
  refine ⟨fuel, outcome, m', fun what h => ?_, hends⟩
  obtain ⟨-, -, -, hfill⟩ := hlacks what h
  exact absurd hfill (by simp only [Node.Calls]; decide)

/-- A table that is to be filled with more cells than fit into memory is not made, and the
evaluation that wants it has no answer. -/
theorem eval_fill_beyond_memory {lib : Library} {operator : String}
    (h : lib.operations.lookup? operator = some (.table .fill)) {count : Int64}
    (hcount : lib.maxCells < count.toInt.toNat) (span inner : Span) (fuel : Nat) (m : Machine) :
    eval lib (fuel + 2) (.form operator [.literal (.int count) inner] span) m =
      (.exhausted (.memory count.toInt.toNat), m) := by
  rw [eval, evalStep, dispatch, h]
  show makeFilled lib count.toInt.toNat (.int 0) m = _
  rw [makeFilled, if_neg (Nat.not_le_of_lt hcount)]
  rfl

/-- A form that calls no loop, and that comes to no value, signal or failure. -/
theorem eval_fill_beyond_memory_standard :
    let node : Node := .form "ITABLE" [.literal (.int 9223372036854775807) default] default
    (∀ node ∈ Library.standard.nodes, LoopFree .standard node) ∧ LoopFree .standard node ∧
      ∀ fuel, eval .standard (fuel + 2) node (.initial .ones) =
        (.exhausted (.memory 9223372036854775807), .initial .ones) :=
  ⟨by decide, by decide, fun fuel =>
    eval_fill_beyond_memory rfl (by decide) default default fuel (.initial .ones)⟩

/-- A loop with nothing in it does not end. -/
theorem eval_emptyLoop {lib : Library} {operator : String}
    (h : lib.operations.lookup? operator = some (.control .loop)) (fuel : Nat) (span : Span)
    (m : Machine) : (eval lib fuel (.form operator [] span) m).1 = .exhausted .fuel := by
  have hrounds : ∀ rounds m, Run.forever (pure ()) rounds m = (.exhausted .fuel, m) := by
    intro rounds m
    induction rounds with
    | zero => rfl
    | succ rounds ih =>
      have hround : (pure () : Run Unit) m = (.done (), m) := rfl
      rw [Run.forever_succ, Run.bind_of_done hround]
      exact ih
  cases fuel with
  | zero => rfl
  | succ fuel =>
    rw [eval, evalStep, dispatch, h]
    show (Run.withinBlock (Run.forever (pure ()) fuel) m).1 = _
    rw [Run.fst_withinBlock, hrounds]
    rfl

end TextAdventure
