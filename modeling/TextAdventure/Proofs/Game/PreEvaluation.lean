import TextAdventure.Proofs.Game.Literals
import TextAdventure.Proofs.Game.Phases

/-!
`%` forms that are run when a game is loaded.

When a routine is defined, the `%` forms in its body are run, and literals of what they are worth
take their places.  Loading looks for them through forms and lists.  It does not look behind a
splice or a tag, though evaluation does; so a `%` form there stays, and is run at every call.

* `Node.percents` — the `%` forms that evaluation comes upon;
* `Node.reached`, `Node.kept` — those that loading finds, and those behind a splice or a tag;
* `preEvaluate_fills` — loading runs each form that it finds once, in order, and puts the literals
  in their places;
* `preEvaluate_percents` — what is left is what stood behind a splice or a tag;
* `evalPercentAs` — evaluation in which `%` forms do something else, and `eval_percentFree`, by
  which that makes no difference where none is left;
* `load_runs_percents` — so it is for the routines of a loaded game;
* `call_tagged_percent` — a form behind a tag is run at every call.
-/

namespace TextAdventure

/-! ### Where `%` forms stand -/

mutual

/-- The `%` forms in a node that evaluation comes upon: those outside all quotation. -/
def Node.percents : Node → List Node
  | .form _ args _ => Node.percentsAll args
  | .list items _ => Node.percentsAll items
  | .marked .percent body span => [.marked .percent body span]
  | .marked .quote _ _ => []
  | .marked .quasiquote _ _ => []
  | .marked .splice body _ => body.percents
  | .marked (.tag _) body _ => body.percents
  | _ => []

/-- The `%` forms in some nodes that evaluation comes upon. -/
def Node.percentsAll : List Node → List Node
  | [] => []
  | node :: nodes => node.percents ++ Node.percentsAll nodes

end

mutual

/-- The `%` forms in a node that loading finds: through forms and lists only. -/
def Node.reached : Node → List Node
  | .form _ args _ => Node.reachedAll args
  | .list items _ => Node.reachedAll items
  | .marked .percent body span => [.marked .percent body span]
  | _ => []

/-- The `%` forms in some nodes that loading finds. -/
def Node.reachedAll : List Node → List Node
  | [] => []
  | node :: nodes => node.reached ++ Node.reachedAll nodes

end

mutual

/-- The `%` forms in a node that stand behind a splice or a tag. -/
def Node.kept : Node → List Node
  | .form _ args _ => Node.keptAll args
  | .list items _ => Node.keptAll items
  | .marked .splice body _ => body.percents
  | .marked (.tag _) body _ => body.percents
  | _ => []

/-- The `%` forms in some nodes that stand behind a splice or a tag. -/
def Node.keptAll : List Node → List Node
  | [] => []
  | node :: nodes => node.kept ++ Node.keptAll nodes

end

mutual

/-- A node with other nodes in the places of the `%` forms that loading finds, in order, and the
nodes that are left over. -/
def Node.fill : Node → List Node → Node × List Node
  | .form operator args span, literals =>
    let (args, rest) := Node.fillAll args literals
    (.form operator args span, rest)
  | .list items span, literals =>
    let (items, rest) := Node.fillAll items literals
    (.list items span, rest)
  | .marked .percent _ _, first :: rest => (first, rest)
  | node, literals => (node, literals)

/-- Some nodes with other nodes in the places of the `%` forms that loading finds. -/
def Node.fillAll : List Node → List Node → List Node × List Node
  | [], literals => ([], literals)
  | node :: nodes, literals =>
    let (first, rest) := node.fill literals
    let (others, rest) := Node.fillAll nodes rest
    (first :: others, rest)

end

section

variable {marker : Marker} (h : marker ≠ .percent) (body : Node) (span : Span)
include h

theorem Node.reached_marked : Node.reached (.marked marker body span) = [] := by
  cases marker with
  | percent => exact absurd rfl h
  | _ => simp only [Node.reached]

theorem Node.fill_marked (literals : List Node) :
    Node.fill (.marked marker body span) literals = (.marked marker body span, literals) := by
  cases marker with
  | percent => exact absurd rfl h
  | _ => simp only [Node.fill]

theorem Node.kept_marked :
    Node.kept (.marked marker body span) = Node.percents (.marked marker body span) := by
  cases marker with
  | percent => exact absurd rfl h
  | _ => simp only [Node.kept, Node.percents]

end

/-! ### What loading does with them -/

mutual

/-- There is no `%` form in a literal. -/
theorem percents_nodeOfValue {w : World} {span : Span} : ∀ {v : Value} {n : Node},
    nodeOfValue w span v = .ok n → n.percents = []
  | .list items, n, hn => by
    obtain ⟨ns, hns, heq⟩ := Attempt.bind_eq_ok hn
    cases heq
    rw [Node.percents]
    exact percentsAll_nodesOfValues hns
  | .bool true, n, hn | .bool false, n, hn | .int _, n, hn | .float _, n, hn | .string _, n, hn
  | .char _, n, hn | .atom _, n, hn | .object _, n, hn | .routine _, n, hn => by
    cases hn
    simp only [Node.percents]

theorem percentsAll_nodesOfValues {w : World} {span : Span} : ∀ {values : List Value}
    {ns : List Node}, nodesOfValues w span values = .ok ns → Node.percentsAll ns = []
  | [], ns, hns => by
    cases hns
    rfl
  | value :: values, ns, hns => by
    obtain ⟨n, hn, hrest⟩ := Attempt.bind_eq_ok hns
    obtain ⟨others, hothers, heq⟩ := Attempt.bind_eq_ok hrest
    cases heq
    rw [Node.percentsAll, percents_nodeOfValue hn, percentsAll_nodesOfValues hothers]
    rfl

end

theorem preEvaluateAll_append {lib : Library} {fuel : Nat} {nodes others ns os : List Node}
    {m m₁ m' : Machine} (h : preEvaluateAll lib fuel nodes m = (.done ns, m₁))
    (hothers : preEvaluateAll lib fuel others m₁ = (.done os, m')) :
    preEvaluateAll lib fuel (nodes ++ others) m = (.done (ns ++ os), m') := by
  induction nodes generalizing m ns with
  | nil =>
    cases h
    exact hothers
  | cons node nodes ih =>
    rw [preEvaluateAll] at h
    obtain ⟨n, m₂, hn, h⟩ := Run.bind_eq_done h
    obtain ⟨rest, m₃, hrest, h⟩ := Run.bind_eq_done h
    cases h
    rw [List.cons_append, preEvaluateAll, Run.bind_of_done hn, Run.bind_of_done (ih hrest)]
    rfl

mutual

/-- Loading a node runs the `%` forms that it finds, once each and in order, and puts the literals
in their places. -/
theorem preEvaluate_fills {lib : Library} {fuel : Nat} : ∀ {node n : Node} {m m' : Machine},
    preEvaluate lib fuel node m = (.done n, m') →
      ∃ literals, preEvaluateAll lib fuel node.reached m = (.done literals, m') ∧
        ∀ rest, node.fill (literals ++ rest) = (n, rest)
  | .marked marker body span, n, m, m', h => by
    by_cases hmarker : marker = .percent
    · subst hmarker
      refine ⟨[n], ?_, fun rest => ?_⟩
      · rw [Node.reached, preEvaluateAll, Run.bind_of_done h]
        rfl
      · rw [List.singleton_append, Node.fill]
    · rw [preEvaluate_marked marker hmarker] at h
      cases h
      refine ⟨[], ?_, Node.fill_marked hmarker body span⟩
      rw [Node.reached_marked hmarker]
      rfl
  | .form operator args span, n, m, m', h => by
    rw [preEvaluate] at h
    obtain ⟨ns, m₁, hns, h⟩ := Run.bind_eq_done h
    cases h
    obtain ⟨literals, hrun, hfill⟩ := preEvaluateAll_fills hns
    refine ⟨literals, by rw [Node.reached]; exact hrun, fun rest => ?_⟩
    rw [Node.fill, hfill]
  | .list items span, n, m, m', h => by
    rw [preEvaluate] at h
    obtain ⟨ns, m₁, hns, h⟩ := Run.bind_eq_done h
    cases h
    obtain ⟨literals, hrun, hfill⟩ := preEvaluateAll_fills hns
    refine ⟨literals, by rw [Node.reached]; exact hrun, fun rest => ?_⟩
    rw [Node.fill, hfill]
  | .empty _, n, m, m', h | .atom _ _, n, m, m', h | .reference _ _ _, n, m, m', h
  | .literal _ _, n, m, m', h => by
    rw [preEvaluate] at h
    cases h
    refine ⟨[], by simp only [Node.reached]; rfl, fun rest => ?_⟩
    simp [Node.fill]

theorem preEvaluateAll_fills {lib : Library} {fuel : Nat} :
    ∀ {nodes ns : List Node} {m m' : Machine},
      preEvaluateAll lib fuel nodes m = (.done ns, m') →
        ∃ literals, preEvaluateAll lib fuel (Node.reachedAll nodes) m = (.done literals, m') ∧
          ∀ rest, Node.fillAll nodes (literals ++ rest) = (ns, rest)
  | [], ns, m, m', h => by
    cases h
    exact ⟨[], rfl, fun rest => rfl⟩
  | node :: nodes, ns, m, m', h => by
    rw [preEvaluateAll] at h
    obtain ⟨n, m₁, hn, h⟩ := Run.bind_eq_done h
    obtain ⟨others, m₂, hothers, h⟩ := Run.bind_eq_done h
    cases h
    obtain ⟨first, hfirst, hfill⟩ := preEvaluate_fills hn
    obtain ⟨second, hsecond, hfillAll⟩ := preEvaluateAll_fills hothers
    refine ⟨first ++ second, preEvaluateAll_append hfirst hsecond, fun rest => ?_⟩
    rw [Node.fillAll, List.append_assoc, hfill]
    dsimp only
    rw [hfillAll]

end

/-- What takes the place of a `%` form is a literal. -/
theorem exists_of_preEvaluate_percent {lib : Library} {fuel : Nat} {body n : Node} {span : Span}
    {m m' : Machine} (h : preEvaluate lib fuel (.marked .percent body span) m = (.done n, m')) :
    ∃ w value, nodeOfValue w span value = .ok n := by
  rw [preEvaluate] at h
  obtain ⟨value, m₁, -, h⟩ := Run.bind_eq_done h
  change Run.ofExcept (nodeOfValue m₁.world span value) m₁ = _ at h
  rcases hn : nodeOfValue m₁.world span value with fault | literal
  · rw [hn] at h
    cases h
  · rw [hn] at h
    cases h
    exact ⟨_, value, hn⟩

mutual

/-- Of the `%` forms in a node, loading leaves those that stand behind a splice or a tag. -/
theorem preEvaluate_percents {lib : Library} {fuel : Nat} : ∀ {node n : Node} {m m' : Machine},
    preEvaluate lib fuel node m = (.done n, m') → n.percents = node.kept
  | .marked marker body span, n, m, m', h => by
    by_cases hmarker : marker = .percent
    · subst hmarker
      obtain ⟨w, value, hn⟩ := exists_of_preEvaluate_percent h
      rw [percents_nodeOfValue hn]
      simp only [Node.kept]
    · rw [preEvaluate_marked marker hmarker] at h
      cases h
      exact (Node.kept_marked hmarker body span).symm
  | .form operator args span, n, m, m', h => by
    rw [preEvaluate] at h
    obtain ⟨ns, m₁, hns, h⟩ := Run.bind_eq_done h
    cases h
    rw [Node.percents, Node.kept]
    exact preEvaluateAll_percents hns
  | .list items span, n, m, m', h => by
    rw [preEvaluate] at h
    obtain ⟨ns, m₁, hns, h⟩ := Run.bind_eq_done h
    cases h
    rw [Node.percents, Node.kept]
    exact preEvaluateAll_percents hns
  | .empty _, n, m, m', h | .atom _ _, n, m, m', h | .reference _ _ _, n, m, m', h
  | .literal _ _, n, m, m', h => by
    rw [preEvaluate] at h
    cases h
    simp only [Node.percents, Node.kept]

theorem preEvaluateAll_percents {lib : Library} {fuel : Nat} :
    ∀ {nodes ns : List Node} {m m' : Machine},
      preEvaluateAll lib fuel nodes m = (.done ns, m') →
        Node.percentsAll ns = Node.keptAll nodes
  | [], ns, m, m', h => by
    cases h
    rfl
  | node :: nodes, ns, m, m', h => by
    rw [preEvaluateAll] at h
    obtain ⟨n, m₁, hn, h⟩ := Run.bind_eq_done h
    obtain ⟨others, m₂, hothers, h⟩ := Run.bind_eq_done h
    cases h
    rw [Node.percentsAll, Node.keptAll, preEvaluate_percents hn, preEvaluateAll_percents hothers]

end

/-! ### Evaluation without them -/

/-- Evaluation in which a `%` form, wherever one is come upon, does something else. -/
def evalPercentAs (lib : Library) (act : Node → Run Value) : Nat → Node → Run Value
  | 0, _ => Run.exhaust .fuel
  | _ + 1, .marked .percent body _ => act body
  | fuel + 1, node => evalStep lib fuel (evalPercentAs lib act fuel) node

theorem Node.percents_of_mem {nodes : List Node} (h : Node.percentsAll nodes = []) {node : Node}
    (hn : node ∈ nodes) : node.percents = [] := by
  induction nodes with
  | nil => cases hn
  | cons first rest ih =>
    obtain ⟨hfirst, hrest⟩ := List.append_eq_nil_iff.mp h
    rcases List.mem_cons.mp hn with rfl | hn
    · exact hfirst
    · exact ih hrest hn

/-- The judgement that it makes no difference what `%` forms do, about nodes without any. -/
def percentFreeJudgement : Judgement :=
  { fuelJudgement with Known := fun _ node => node.percents = [] }

theorem percentFree_logic {lib : Library} (hlib : ∀ node ∈ lib.nodes, node.percents = []) :
    ProgramLogic percentFreeJudgement lib :=
  { fuel_logic lib with
    known_later := fun _ _ hn => hn
    known_item := fun h _ hi => Node.percents_of_mem (by rw [← h, Node.percents]) hi
    known_routine := fun _ _ _ hr _ hn => hlib _ (Library.mem_nodes hr hn) }

/-- Where no `%` form is left, neither in a node nor in routines, an answer does not depend on what
such forms do. -/
theorem eval_percentFree {lib : Library} (hlib : ∀ node ∈ lib.nodes, node.percents = [])
    (act : Node → Run Value) (fuel : Nat) {node : Node} (h : node.percents = []) :
    Run.Lasts (fun _ => True) (eval lib fuel node) (evalPercentAs lib act fuel node) := by
  induction fuel generalizing node with
  | zero => exact fun _ => .inl rfl
  | succ fuel ih =>
    have hstep (hparts : ∀ part ∈ node.parts, part.percents = []) :
        Run.Lasts (fun _ => True) (evalStep lib fuel (eval lib fuel) node)
          (evalStep lib fuel (evalPercentAs lib act fuel) node) :=
      (percentFree_logic hlib).evalStep (s := ()) (fun _ _ hn => ih hn) hparts
        (fun _ _ _ _ _ _ => trivial) (Nat.le_refl fuel)
    cases node with
    | form operator args span =>
      rw [Node.percents] at h
      exact hstep fun _ hn => Node.percents_of_mem h hn
    | list items span =>
      rw [Node.percents] at h
      exact hstep fun _ hn => Node.percents_of_mem h hn
    | marked marker body span =>
      cases marker with
      | percent => simp only [Node.percents, reduceCtorEq] at h
      | quote => exact .refl fun _ _ _ => trivial
      | quasiquote => exact .refl fun _ _ _ => trivial
      | splice =>
        rw [Node.percents] at h
        exact hstep fun _ hn => List.mem_singleton.mp hn ▸ h
      | tag name =>
        rw [Node.percents] at h
        exact hstep fun _ hn => List.mem_singleton.mp hn ▸ h
    | _ => exact hstep nofun

/-- So it is for calls. -/
theorem call_percentFree {lib : Library} (hlib : ∀ node ∈ lib.nodes, node.percents = [])
    (act : Node → Run Value) {fuel : Nat} {name : String} {args : List Value} {m : Machine}
    (hm : (call lib fuel name args m).1 ≠ .exhausted .fuel) :
    callRoutine lib (evalPercentAs lib act fuel) name args m = call lib fuel name args m := by
  have hargs : percentFreeJudgement.GoodAll () args := fun _ _ => trivial
  have hlasts := (percentFree_logic hlib).callRoutine
    (fun _ _ hn => eval_percentFree hlib act fuel hn) name hargs
  exact ((hlasts m).resolve_left hm).1

/-! ### Routines -/

theorem Declaration.canonical_declaredName (d : Declaration) {name : String}
    (h : d.declaredName = .ok name) : canonical name = name := by
  rw [declaredName] at h
  split at h
  · cases h
    exact canonical_canonical _
  · cases h

/-- A routine's name and body come from its declaration. -/
theorem exists_of_buildRoutine {lib : Library} {fuel : Nat} {d : Declaration} {routine : Routine}
    {m m' : Machine} (h : buildRoutine lib fuel d m = (.done routine, m')) :
    d.declaredName = .ok routine.name ∧
      preEvaluateAll lib fuel (d.args.drop 2) m = (.done routine.body, m') := by
  obtain ⟨name, m₁, hread, hrest⟩ := Run.bind_eq_done h
  obtain ⟨hname, rfl⟩ := Run.ofExcept_eq_done hread
  rcases harguments : d.args[1]?.bind Node.items? with _ | arguments
  all_goals simp only [harguments] at hrest
  · cases hrest
  obtain ⟨body, m₂, hbody, hend⟩ := Run.bind_eq_done hrest
  rcases hmade : Routine.ofDeclaration name arguments body with fault | made
  · rw [hmade] at hend
    cases hend
  · rw [hmade] at hend
    cases hend
    obtain ⟨parts, -, hmade⟩ := Attempt.bind_eq_ok hmade
    cases hmade
    exact ⟨hname.trans (congrArg _ (d.canonical_declaredName hname).symm), hbody⟩

theorem buildRoutine_evolves (lib : Library) (fuel : Nat) (d : Declaration) :
    Run.Evolves (buildRoutine lib fuel d) :=
  (evolves_loadLogic.buildRoutine (s := ()) lib fuel d).1

theorem defineRoutines_evolves (lib : Library) (fuel : Nat) (ds : List Declaration) :
    Run.Evolves (defineRoutines fuel lib ds) :=
  (evolves_loadLogic.defineRoutines (s := ()) fuel lib ds).1

/-- A defined routine was there before, or it was built from a declaration, with the routines that
were defined by then. -/
theorem exists_of_defineRoutines {fuel : Nat} {lib lib' : Library} {ds : List Declaration}
    {m m' : Machine} (h : defineRoutines fuel lib ds m = (.done lib', m')) {name : String}
    {routine : Routine} (hr : lib'.routines.lookup? name = some routine) :
    lib.routines.lookup? name = some routine ∨
      ∃ d ∈ ds, ∃ routines m₁ m₂, m.Evolves m₁ ∧
        buildRoutine { lib with routines := routines } fuel d m₁ = (.done routine, m₂) ∧
        m₂.Evolves m' := by
  induction ds generalizing lib m with
  | nil =>
    cases h
    exact .inl hr
  | cons d ds ih =>
    obtain ⟨built, m₁, hbuilt, h⟩ := Run.bind_eq_done h
    have hfirst := buildRoutine_evolves lib fuel d m
    rw [hbuilt] at hfirst
    obtain hlookup | ⟨e, he, routines, m₂, m₃, hbefore, hrun, hafter⟩ := ih h
    · rw [RoutineTable.lookup?, RoutineTable.define, NameMap.get?_insert] at hlookup
      split at hlookup
      · cases hlookup
        have hrest := defineRoutines_evolves
          { lib with routines := lib.routines.define routine } fuel ds m₁
        rw [h] at hrest
        exact .inr ⟨d, List.mem_cons_self, lib.routines, m, m₁, .refl m, hbuilt, hrest⟩
      · exact .inl hlookup
    · refine .inr ⟨e, List.mem_cons_of_mem d he, routines, m₂, m₃, ?_, hrun, hafter⟩
      exact hfirst.trans hbefore

/-- The routines of a loaded game are defined in the last phase but one. -/
theorem exists_defineRoutines_of_load {settings : Settings} {fuel : Nat} {nodes : List Node}
    {g : Game} (h : load settings fuel nodes = .done g) :
    ∃ m, (Machine.initial settings.random).Evolves m ∧
      defineRoutines fuel settings.library
        ((nodes.filterMap Node.declaration?).filter (·.kind == .routine)) m =
          (.done g.library, g.machine) := by
  obtain ⟨ds, vocabulary, hds, hrun⟩ := exists_of_load h
  obtain ⟨-, hclassify⟩ | ⟨-, fault, hclassify⟩ := classify_cases nodes
  · rw [hclassify] at hds
    cases hds
    rw [loadDeclarations_phases] at hrun
    obtain ⟨_, m₁, hintroduce, hrun₁⟩ := Run.bind_eq_done hrun
    obtain ⟨_, m₂, hfurnish, hrun₂⟩ := Run.bind_eq_done hrun₁
    obtain ⟨_, m₃, hvalues, hrun₃⟩ := Run.bind_eq_done hrun₂
    obtain ⟨lib, m₄, hlib, hrun₄⟩ := Run.bind_eq_done hrun₃
    obtain ⟨words, m₅, hwords, hend⟩ := Run.bind_eq_done hrun₄
    obtain ⟨-, rfl⟩ := Run.ofExcept_eq_done hwords
    cases hend
    refine ⟨m₃, ?_, hlib⟩
    have hfirst := introduce_evolves (nodes.filterMap Node.declaration?) (.initial settings.random)
    have hsecond := furnish_evolves settings fuel (nodes.filterMap Node.declaration?) m₁
    have hthird := declareValues_evolves settings.library fuel
      (nodes.filterMap Node.declaration?) m₂
    rw [hintroduce] at hfirst
    rw [hfurnish] at hsecond
    rw [hvalues] at hthird
    exact hfirst.trans (hsecond.trans hthird)
  · rw [hclassify] at hds
    cases hds

/-- The `%` forms in the routines of a loaded game.  While the game is loaded, those that are found
in a routine's body are run once each, in order, and literals of their values take their places;
those that are left in the body are those behind a splice or a tag.  And where none is left, calls
run none: it makes no difference to them what a `%` form does. -/
theorem load_runs_percents {settings : Settings} {fuel : Nat} {nodes : List Node} {g : Game}
    (h : load settings fuel nodes = .done g) :
    (∀ name routine, g.library.routines.lookup? name = some routine →
      ∃ d ∈ nodes.filterMap Node.declaration?, d.kind = .routine ∧
        d.declaredName = .ok routine.name ∧
        (∃ routines m₁ m₂ literals, (Machine.initial settings.random).Evolves m₁ ∧
          preEvaluateAll { settings.library with routines := routines } fuel
            (Node.reachedAll (d.args.drop 2)) m₁ = (.done literals, m₂) ∧
          m₂.Evolves g.machine ∧
          Node.fillAll (d.args.drop 2) literals = (routine.body, [])) ∧
        Node.percentsAll routine.body = Node.keptAll (d.args.drop 2)) ∧
    ((∀ node ∈ g.library.nodes, node.percents = []) →
      ∀ act fuel name args m, (call g.library fuel name args m).1 ≠ .exhausted .fuel →
        callRoutine g.library (evalPercentAs g.library act fuel) name args m =
          call g.library fuel name args m) := by
  refine ⟨fun name routine hr => ?_, fun hfree act fuel name args m =>
    call_percentFree hfree act⟩
  obtain ⟨m, hbefore, hdefine⟩ := exists_defineRoutines_of_load h
  obtain hnone | ⟨d, hd, routines, m₁, m₂, hlater, hbuild, hafter⟩ :=
    exists_of_defineRoutines hdefine hr
  · cases hnone
  obtain ⟨hd, hkind⟩ := List.mem_filter.mp hd
  obtain ⟨hname, hbody⟩ := exists_of_buildRoutine hbuild
  obtain ⟨literals, hrun, hfill⟩ := preEvaluateAll_fills hbody
  refine ⟨d, hd, eq_of_beq hkind, hname, ?_, preEvaluateAll_percents hbody⟩
  refine ⟨routines, m₁, m₂, literals, hbefore.trans hlater, hrun, hafter, ?_⟩
  have hall := hfill []
  rwa [List.append_nil] at hall

/-- A `%` form that adds one to a counter. -/
def percentTick : Node :=
  .marked .percent (.form "SETG" [.atom "N" default,
    .form "+" [.reference .comma "N" default, .literal (.int 1) default] default] default) default

/-- A counter, and a routine with a given body. -/
def counting (body : Node) : List Node :=
  [.form "GLOBAL" [.atom "N" default, .literal (.int 0) default] default,
    .form "ROUTINE" [.atom "TICK" default, .list [] default, body] default]

theorem Outcome.eq_done_int {outcome : Outcome Value} {n : Int64}
    (h : outcome.passes (·.int? == some n) = true) : outcome = .done (.int n) := by
  obtain ⟨value, rfl, hvalue⟩ := Outcome.exists_of_passes h
  cases value <;> cases eq_of_beq hvalue
  rfl

/-- A form that stands in the body itself is run while loading, and no call runs it. -/
theorem load_runs_percents_counting :
    ∃ g : Game, load .standard 9 (counting percentTick) = .done g ∧
      (∃ routine, g.library.routines.lookup? "TICK" = some routine ∧
        Node.percentsAll routine.body = []) ∧
      (call g.library 9 "TICK" [] g.machine).1 = .done (.int 1) ∧
      ∀ act, callRoutine g.library (evalPercentAs g.library act 9) "TICK" [] g.machine =
        call g.library 9 "TICK" [] g.machine := by
  have hpasses : (load .standard 9 (counting percentTick)).passes (fun g =>
      (g.library.routines.lookup? "TICK").isSome &&
      ((call g.library 9 "TICK" [] g.machine).1.passes (·.int? == some 1) &&
      g.library.nodes.all (·.percents.isEmpty))) = true := by
    decide +kernel
  obtain ⟨g, hload, htest⟩ := Outcome.exists_of_passes hpasses
  obtain ⟨hdefined, htest⟩ := Bool.and_eq_true_iff.mp htest
  obtain ⟨hcall, hnodes⟩ := Bool.and_eq_true_iff.mp htest
  obtain ⟨routine, hlookup⟩ := Option.isSome_iff_exists.mp hdefined
  obtain ⟨hroutines, hcalls⟩ := load_runs_percents hload
  have hone := Outcome.eq_done_int hcall
  refine ⟨g, hload, ⟨routine, hlookup, ?_⟩, hone, fun act => hcalls ?_ act 9 "TICK" [] _ ?_⟩
  · obtain ⟨d, hd, -, -, -, hkept⟩ := hroutines "TICK" routine hlookup
    have hnone : ((counting percentTick).filterMap Node.declaration?).all
        (fun d => (Node.keptAll (d.args.drop 2)).isEmpty) = true := by
      decide +kernel
    rw [hkept]
    exact List.isEmpty_iff.mp (List.all_eq_true.mp hnone d hd)
  · intro node hn
    exact List.isEmpty_iff.mp (List.all_eq_true.mp hnodes node hn)
  · rw [hone]
    exact nofun

/-- A form behind a tag stays in the body, and each call runs it again. -/
theorem call_tagged_percent :
    ∃ g : Game, load .standard 9 (counting (.marked (.tag "WORD") percentTick default)) = .done g ∧
      (∃ routine, g.library.routines.lookup? "TICK" = some routine ∧
        Node.percentsAll routine.body ≠ []) ∧
      (call g.library 9 "TICK" [] g.machine).1 = .done (.int 1) ∧
      (call g.library 9 "TICK" [] (call g.library 9 "TICK" [] g.machine).2).1 =
        .done (.int 2) := by
  have hpasses : (load .standard 9 (counting (.marked (.tag "WORD") percentTick default))).passes
      (fun g =>
        ((g.library.routines.lookup? "TICK").filter
          fun r => !(Node.percentsAll r.body).isEmpty).isSome &&
        ((call g.library 9 "TICK" [] g.machine).1.passes (·.int? == some 1) &&
        (call g.library 9 "TICK" [] (call g.library 9 "TICK" [] g.machine).2).1.passes
          (·.int? == some 2))) = true := by
    decide +kernel
  obtain ⟨g, hload, htest⟩ := Outcome.exists_of_passes hpasses
  obtain ⟨hdefined, htest⟩ := Bool.and_eq_true_iff.mp htest
  obtain ⟨hfirst, hsecond⟩ := Bool.and_eq_true_iff.mp htest
  obtain ⟨routine, hfilter⟩ := Option.isSome_iff_exists.mp hdefined
  obtain ⟨hlookup, hpercents⟩ := Option.filter_eq_some_iff.mp hfilter
  refine ⟨g, hload, ⟨routine, hlookup, fun hnil => ?_⟩, Outcome.eq_done_int hfirst,
    Outcome.eq_done_int hsecond⟩
  rw [hnil] at hpercents
  cases hpercents

end TextAdventure
