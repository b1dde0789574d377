import TextAdventure.Proofs.Game.Agreement
import TextAdventure.Proofs.Game.Loading

/-!
The order of declarations.

Loading goes in phases, and each phase looks at declarations of its own kinds.  So declarations of
different kinds may stand in any order: what they make is the same game, but for the numbering of
flags, which follows the order in which the source names them.

* `DeclarationGroup` — the kinds of declarations among which order matters;
* `Interleaved` — two sources with the same declarations, in the same order within each group;
* `Game.Renumbered` — two games that differ in the numbering of flags only;
* `Game.Renumbered.routines_eq` — their routines are equal, where places are;
* `load_interleaved` — two such sources both fail or make two such games.

Design notes.  Declarations that stand elsewhere in the text carry other places.  Which places may
stand for each other is a parameter here; with equality the routines of the two games are the same
to the last place.
-/

namespace TextAdventure

/-! ### Groups of declarations -/

/-- The declarations that one phase of loading goes through in order. -/
inductive DeclarationGroup where
  | objects
  | values
  | routines
  | words
  deriving DecidableEq

/-- The group of a kind.  A version belongs to none: no phase looks at it. -/
def DeclarationKind.group? : DeclarationKind → Option DeclarationGroup
  | .object | .room => some .objects
  | .global | .constant | .setGlobal | .propertyDefault => some .values
  | .routine => some .routines
  | .rule | .synonym | .noise | .directions => some .words
  | .version => none

/-- The declarations of a group. -/
def Declaration.isIn (group : DeclarationGroup) (d : Declaration) : Bool :=
  d.kind.group? = some group

/-- The declaration that a top-level node is. -/
def Node.declaration? : Node → Option Declaration
  | .form operator args _ =>
    (DeclarationKind.ofName? (canonical operator)).map fun kind => ⟨kind, args⟩
  | _ => none

/-- Strings between declarations are remarks. -/
def Node.isRemark : Node → Bool
  | .literal (.string _) _ => true
  | _ => false

/-- Whether a node is a declaration of a group. -/
def Node.declares (group : DeclarationGroup) (node : Node) : Bool :=
  node.declaration?.any (·.isIn group)

/-- Two sources have the same declarations, up to places, and those of each group in the same
order.  Remarks do not count. -/
structure Interleaved (places : Span → Span → Prop) (nodes nodes' : List Node) : Prop where
  same : ∃ middle, List.Perm (nodes.filter fun node => !node.isRemark) middle ∧
    Node.AllLike Eq places middle (nodes'.filter fun node => !node.isRemark)
  order (group : DeclarationGroup) :
    Node.AllLike Eq places (nodes.filter (Node.declares group)) (nodes'.filter (Node.declares group))

/-- The same declarations in another order, with the order kept within each group. -/
theorem Interleaved.of_perm {nodes nodes' : List Node} (hperm : nodes.Perm nodes')
    (horder : ∀ group, nodes.filter (Node.declares group) = nodes'.filter (Node.declares group)) :
    Interleaved Eq nodes nodes' where
  same := ⟨_, hperm.filter _, Node.Like.allRefl (fun _ => rfl) (fun _ => rfl) _⟩
  order group := by
    rw [horder group]
    exact Node.Like.allRefl (fun _ => rfl) (fun _ => rfl) _

/-! ### Classification -/

/-- What may stand at top level. -/
def Node.isAdmissible (node : Node) : Bool := node.isRemark || node.declaration?.isSome

theorem classify_cons {node : Node} (h : node.isAdmissible = true) (nodes : List Node) :
    classify (node :: nodes) =
      (classify nodes).map fun ds => node.declaration?.toList ++ ds := by
  cases node with
  | form operator args s =>
    rw [classify, Node.declaration?]
    simp only [Node.isAdmissible, Node.isRemark, Node.declaration?, Bool.false_or] at h
    generalize DeclarationKind.ofName? (canonical operator) = found at h ⊢
    rcases found with _ | kind
    · cases h
    · rcases classify nodes with _ | ds
      · rfl
      · rfl
  | literal value s =>
    cases value with
    | string text =>
      rw [classify]
      rcases classify nodes with _ | ds
      · rfl
      · rfl
    | _ => cases h
  | _ => cases h

theorem classify_cons_eq_error {node : Node} (h : node.isAdmissible = false) (nodes : List Node) :
    ∃ fault, classify (node :: nodes) = .error fault := by
  cases node with
  | form operator args s =>
    rw [classify]
    simp only [Node.isAdmissible, Node.isRemark, Node.declaration?, Bool.false_or] at h
    generalize DeclarationKind.ofName? (canonical operator) = found at h ⊢
    rcases found with _ | kind
    · exact ⟨_, rfl⟩
    · cases h
  | literal value s =>
    cases value with
    | string text => cases h
    | _ => exact ⟨_, rfl⟩
  | _ => exact ⟨_, rfl⟩

/-- Classification yields the declarations, unless something stands at top level that may not. -/
theorem classify_cases (nodes : List Node) :
    (nodes.all Node.isAdmissible = true ∧
        classify nodes = .ok (nodes.filterMap Node.declaration?)) ∨
      nodes.all Node.isAdmissible = false ∧ ∃ fault, classify nodes = .error fault := by
  induction nodes with
  | nil => exact .inl ⟨rfl, rfl⟩
  | cons node nodes ih =>
    by_cases hnode : node.isAdmissible = true
    · rw [List.all_cons, hnode, Bool.true_and, classify_cons hnode]
      obtain ⟨hall, hok⟩ | ⟨hsome, fault, herror⟩ := ih
      · refine .inl ⟨hall, ?_⟩
        rw [hok, List.filterMap_cons]
        rcases node.declaration? with _ | d
        · rfl
        · rfl
      · refine .inr ⟨hsome, fault, ?_⟩
        rw [herror]
        rfl
    · -- classification stops here, whatever follows
      have hfalse := Bool.eq_false_iff.mpr hnode
      exact .inr ⟨by rw [List.all_cons, hfalse, Bool.false_and], classify_cons_eq_error hfalse nodes⟩

section

variable {places : Span → Span → Prop} {nodes nodes' : List Node}

theorem declaration?_like {node node' : Node} (h : node.Like Eq places node') :
    Option.Rel (Declaration.Like places) node.declaration? node'.declaration? := by
  cases h with
  | form hoperator hargs _ =>
    rw [Node.declaration?, Node.declaration?, hoperator]
    rcases DeclarationKind.ofName? _ with _ | kind
    · exact .none
    · exact .some ⟨rfl, hargs⟩
  | _ => exact .none

theorem declaration?_of_isRemark {node : Node} (h : node.isRemark = true) :
    node.declaration? = none := by
  cases node with
  | literal value s => rfl
  | _ => cases h

/-- Without the remarks there are as many declarations. -/
theorem filterMap_declaration? (nodes : List Node) :
    (nodes.filter fun node => !node.isRemark).filterMap Node.declaration? =
      nodes.filterMap Node.declaration? := by
  rw [List.filterMap_filter]
  refine List.filterMap_congr fun node _ => ?_
  rcases hremark : node.isRemark with _ | _
  · rfl
  · exact (declaration?_of_isRemark hremark).symm

/-- The declarations of a group come from the nodes that declare something of it. -/
theorem filter_isIn (group : DeclarationGroup) (nodes : List Node) :
    (nodes.filterMap Node.declaration?).filter (Declaration.isIn group) =
      (nodes.filter (Node.declares group)).filterMap Node.declaration? := by
  rw [List.filterMap_filter, List.filter_filterMap]
  refine List.filterMap_congr fun node _ => ?_
  rw [Node.declares]
  rcases node.declaration? with _ | d
  · rfl
  · rfl

/-! ### Flags named in code -/

theorem flagName?_eq {node node' : Node} (h : node.Like Eq places node') :
    flagName? node = flagName? node' := by
  cases h with
  | atom hname _ => rw [hname]; rfl
  | reference sigil hname _ =>
    cases sigil with
    | dot => rfl
    | comma => rw [hname]; rfl
  | marked hmarker hbody _ =>
    cases hmarker with
    | quote =>
      cases hbody with
      | atom hname _ => rw [hname]; rfl
      | _ => rfl
    | _ => rfl
  | _ => rfl

theorem secondFlag_eq {nodes nodes' : List Node} (h : Node.AllLike Eq places nodes nodes') :
    nodes[1]?.bind flagName? = nodes'[1]?.bind flagName? := by
  have hsecond := getElem?_one_like h
  generalize nodes[1]? = found at hsecond ⊢
  generalize nodes'[1]? = found' at hsecond ⊢
  obtain hnode | _ := hsecond
  · exact flagName?_eq hnode
  · rfl

mutual

theorem codeFlags_eq : ∀ {node node' : Node}, node.Like Eq places node' →
    codeFlags node = codeFlags node'
  | .form _ args _, _, .form hoperator hargs _ => by
    rw [codeFlags, codeFlags, hoperator, codeFlagsAll_eq hargs, secondFlag_eq hargs]
  | .list items _, _, .list hitems _ => by rw [codeFlags, codeFlags, codeFlagsAll_eq hitems]
  | .marked _ body _, _, .marked _ hbody _ => by rw [codeFlags, codeFlags, codeFlags_eq hbody]
  | .empty _, _, .empty _ => rfl
  | .atom _ _, _, .atom _ _ => rfl
  | .reference _ _ _, _, .reference _ _ _ => rfl
  | .literal _ _, _, .literal _ _ => rfl

theorem codeFlagsAll_eq : ∀ {nodes nodes' : List Node}, Node.AllLike Eq places nodes nodes' →
    codeFlagsAll nodes = codeFlagsAll nodes'
  | [], _, .nil => rfl
  | _ :: _, _, .cons hnode hnodes => by
    rw [codeFlagsAll, codeFlagsAll, codeFlags_eq hnode, codeFlagsAll_eq hnodes]

end

/-- The flags that declarations name. -/
def declaredFlags (ds : List Declaration) : List String := ds.flatMap fun d => codeFlagsAll d.args

theorem declaredFlags_eq {ds ds' : List Declaration}
    (h : List.Forall₂ (Declaration.Like places) ds ds') : declaredFlags ds = declaredFlags ds' := by
  induction h with
  | nil => rfl
  | cons hd _ ih =>
    rw [declaredFlags, declaredFlags, List.flatMap_cons, List.flatMap_cons, codeFlagsAll_eq hd.args]
    exact congrArg _ ih

/-! ### What interleaved sources have in common -/

theorem all_isAdmissible (nodes : List Node) :
    nodes.all Node.isAdmissible =
      (nodes.filter fun node => !node.isRemark).all fun node => node.declaration?.isSome := by
  rw [List.all_filter]
  refine congrArg nodes.all (funext fun node => ?_)
  rw [Node.isAdmissible, Bool.not_not]

theorem all_declared_eq (h : Node.AllLike Eq places nodes nodes') :
    (nodes.all fun node => node.declaration?.isSome) =
      nodes'.all fun node => node.declaration?.isSome := by
  induction h with
  | nil => rfl
  | @cons node node' _ _ hnode _ ih =>
    have hsome : node.declaration?.isSome = node'.declaration?.isSome := by
      have hlike := declaration?_like hnode
      generalize node.declaration? = found at hlike ⊢
      generalize node'.declaration? = found' at hlike ⊢
      obtain _ | _ := hlike
      · rfl
      · rfl
    rw [List.all_cons, List.all_cons, hsome, ih]

namespace Interleaved

variable (h : Interleaved places nodes nodes')
include h

/-- Something stands at top level that may not in both sources or in none. -/
theorem all_eq : nodes.all Node.isAdmissible = nodes'.all Node.isAdmissible := by
  obtain ⟨middle, hperm, hlike⟩ := h.same
  rw [all_isAdmissible, all_isAdmissible, hperm.all_eq]
  exact all_declared_eq hlike

/-- Within each group the declarations are like one by one. -/
theorem declarations (group : DeclarationGroup) :
    List.Forall₂ (Declaration.Like places)
      ((nodes.filterMap Node.declaration?).filter (Declaration.isIn group))
      ((nodes'.filterMap Node.declaration?).filter (Declaration.isIn group)) := by
  rw [filter_isIn, filter_isIn]
  exact List.rel_filterMap (fun _ _ hnode => declaration?_like hnode) (h.order group)

/-- Both sources name the same flags. -/
theorem mem_declaredFlags (name : String) :
    name ∈ declaredFlags (nodes.filterMap Node.declaration?) ↔
      name ∈ declaredFlags (nodes'.filterMap Node.declaration?) := by
  -- a permutation keeps the members of the list, and likeness the list itself
  obtain ⟨middle, hperm, hlike⟩ := h.same
  have hsame := declaredFlags_eq (List.rel_filterMap (fun _ _ hnode => declaration?_like hnode) hlike)
  rw [← filterMap_declaration? nodes, ← filterMap_declaration? nodes', ← hsame]
  exact ((hperm.filterMap Node.declaration?).flatMap_right _).mem_iff

end Interleaved

end

/-! ### Each phase looks at one group -/

theorem DeclarationKind.isObject_eq (kind : DeclarationKind) :
    kind.isObject = decide (kind.group? = some .objects) := by
  cases kind <;> rfl

theorem DeclarationKind.isRoutine_eq (kind : DeclarationKind) :
    (kind == .routine) = decide (kind.group? = some .routines) := by
  cases kind <;> rfl

/-- What nothing is done with may be left out. -/
theorem Run.forEach_filter {α : Type} {act : α → Run Unit} {p : α → Bool}
    (h : ∀ a, p a = false → act a = pure ()) (as : List α) :
    Run.forEach act (as.filter p) = Run.forEach act as := by
  induction as with
  | nil => rfl
  | cons a as ih =>
    rcases hp : p a with _ | _
    · rw [List.filter_cons_of_neg (by simp [hp]), ih, Run.forEach, h a hp]
      rfl
    · rw [List.filter_cons_of_pos hp, Run.forEach, Run.forEach, ih]

theorem declareValue_of_not_isIn (lib : Library) (fuel : Nat) (d : Declaration)
    (h : d.isIn .values = false) : declareValue lib fuel d = pure () := by
  obtain ⟨kind, args⟩ := d
  cases kind with
  | global | constant | setGlobal | propertyDefault => cases h
  | _ => rfl

theorem declareWords_of_not_isIn (v : Vocabulary) (d : Declaration)
    (h : d.isIn .words = false) : declareWords v d = .ok v := by
  obtain ⟨kind, args⟩ := d
  cases kind with
  | rule | synonym | noise | directions => cases h
  | _ => rfl

theorem declareVocabulary_filter (v : Vocabulary) (ds : List Declaration) :
    declareVocabulary v (ds.filter (Declaration.isIn .words)) = declareVocabulary v ds := by
  induction ds generalizing v with
  | nil => rfl
  | cons d ds ih =>
    rcases hd : d.isIn .words with _ | _
    · rw [List.filter_cons_of_neg (by simp [hd]), ih, declareVocabulary,
        declareWords_of_not_isIn v d hd]
    · rw [List.filter_cons_of_pos hd, declareVocabulary, declareVocabulary]
      rcases declareWords v d with _ | next
      · rfl
      · exact ih next

/-- What loading does once all flags are known. -/
def loadPhases (settings : Settings) (fuel : Nat) (ds : List Declaration) :
    Run (Library × Vocabulary) := do
  Run.forEach (fillObject settings.library fuel) (ds.filter (Declaration.isIn .objects)).reverse
  Run.forEach (declareValue settings.library fuel) (ds.filter (Declaration.isIn .values))
  let lib ← defineRoutines fuel settings.library (ds.filter (Declaration.isIn .routines))
  let vocabulary ← Run.ofExcept
    (declareVocabulary .empty (ds.filter (Declaration.isIn .words)))
  return (lib, vocabulary)

theorem loadDeclarations_eq (settings : Settings) (fuel : Nat) (ds : List Declaration) :
    loadDeclarations settings fuel ds = (do
      Run.forEach registerObject (ds.filter (Declaration.isIn .objects))
      Run.modifyWorld fun w => (declaredFlags ds).foldl World.declareFlag w
      loadPhases settings fuel ds) := by
  have hobjects : (fun d : Declaration => d.kind.isObject) = Declaration.isIn .objects :=
    funext fun d => d.kind.isObject_eq
  have hroutines : (fun d : Declaration => d.kind == .routine) = Declaration.isIn .routines :=
    funext fun d => d.kind.isRoutine_eq
  rw [loadDeclarations, hobjects, hroutines]
  -- values and words are looked for among all declarations, so the others have to be left out
  simp only [loadPhases, declareVocabulary_filter,
    Run.forEach_filter (declareValue_of_not_isIn settings.library fuel)]
  rfl

/-! ### Bringing objects into being -/

/-- If all flags on objects have names, they do so when an action has run. -/
def Run.KeepsFlagsNamed {α : Type} (act : Run α) : Prop :=
  Run.Across (fun m m' => m.world.FlagsNamed → m'.world.FlagsNamed) act

theorem registerObject_keepsFlagsNamed (d : Declaration) :
    (registerObject d).KeepsFlagsNamed := by
  -- only registering changes the world
  refine .bind (fun _ _ _ h h' hm => h' (h hm)) (.of_eq (fun _ => id) fun m => ?_) fun name _ => ?_
  · rcases d.declaredName with _ | _
    · rfl
    · rfl
  · refine .changeWorld (fun _ => id) fun m w hw hm => ?_
    obtain ⟨o, hregister⟩ := register_of_map_eq_ok hw
    exact hm.register hregister

theorem registerObjects_keepsFlagsNamed (ds : List Declaration) :
    (Run.forEach registerObject ds).KeepsFlagsNamed := by
  induction ds with
  | nil => exact .of_eq (fun _ => id) fun _ => rfl
  | cons d ds ih =>
    exact .bind (fun _ _ _ h h' hm => h' (h hm)) (registerObject_keepsFlagsNamed d) fun _ _ => ih

theorem registerObject_quiet (d : Declaration) : (registerObject d).Quiet :=
  .bind (Run.quiet_ofExcept _) fun _ => Run.quiet_changeWorld _

theorem registerObjects_quiet (ds : List Declaration) :
    (Run.forEach registerObject ds).Quiet := by
  induction ds with
  | nil => exact fun _ _ => nofun
  | cons d ds ih => exact .bind (registerObject_quiet d) fun _ => ih

theorem registerObjects_eq {places : Span → Span → Prop} {ds ds' : List Declaration}
    (h : List.Forall₂ (Declaration.Like places) ds ds') :
    Run.forEach registerObject ds = Run.forEach registerObject ds' := by
  induction h with
  | nil => rfl
  | cons hd _ ih => rw [Run.forEach, Run.forEach, registerObject_eq hd, ih]

/-! ### Loading -/

/-- Before any routine is defined there is nothing in a library whose place could matter. -/
theorem Settings.library_like (places : Span → Span → Prop) (settings : Settings) :
    settings.library.Like Eq places settings.library where
  operations := rfl
  maxDepth := rfl
  maxCells := rfl
  actorGlobal := rfl
  routines _ := .none

/-- Likeness of what loading makes. -/
def LoadedLike (places : Span → Span → Prop) (made made' : Library × Vocabulary) : Prop :=
  made.1.Like Eq places made'.1 ∧ made.2 = made'.2

section

variable {places : Span → Span → Prop} {ds ds' : List Declaration}
  (hgroups : ∀ group, List.Forall₂ (Declaration.Like places)
    (ds.filter (Declaration.isIn group)) (ds'.filter (Declaration.isIn group)))
include hgroups

/-- Once all flags are known, loading goes on alike whatever their numbers. -/
theorem loadPhases_agrees (settings : Settings) (fuel : Nat) :
    Run.Agrees (LoadedLike places) (loadPhases settings fuel ds)
      (loadPhases settings fuel ds') := by
  have hlib := settings.library_like places
  refine .andThen (.forEach (List.forall₂_reverse_iff.mpr (hgroups .objects)) fun _ _ hd =>
    fillObject_agrees hlib fuel hd) fun _ => ?_
  refine .andThen (.forEach (hgroups .values) fun _ _ hd => declareValue_agrees hlib fuel hd)
    fun _ => ?_
  refine .bind (defineRoutines_agrees hlib fuel (hgroups .routines)) fun lib lib' hmade => ?_
  -- words have nothing to do with the world, so here the two sides do the same
  rw [declareVocabulary_eq (hgroups .words)]
  exact .andThen (.ofExcept (.refl _)) fun vocabulary => .pure ⟨hmade, rfl⟩

/-- Declarations that are like group by group, and name the same flags, are loaded alike. -/
theorem loadDeclarations_endsAlike
    (hflags : ∀ name, name ∈ declaredFlags ds ↔ name ∈ declaredFlags ds') (settings : Settings)
    (fuel : Nat) {m : Machine} (hm : m.world.FlagsNamed) :
    EndsAlike (LoadedLike places) (loadDeclarations settings fuel ds m)
      (loadDeclarations settings fuel ds' m) := by
  rw [loadDeclarations_eq, loadDeclarations_eq, ← registerObjects_eq (hgroups .objects)]
  have hnamed := registerObjects_keepsFlagsNamed (ds.filter (Declaration.isIn .objects)) m hm
  have hquiet := registerObjects_quiet (ds.filter (Declaration.isIn .objects)) m
  -- up to here both do the same, so the machines are equal
  rcases hrun : Run.forEach registerObject (ds.filter (Declaration.isIn .objects)) m with
    ⟨_ | s | f | what, m₁⟩
  all_goals rw [hrun] at hnamed hquiet
  · rw [Run.bind_of_done hrun, Run.bind_of_done hrun]
    refine loadPhases_agrees hgroups settings fuel _ _ ⟨_, hnamed.renumbered fun name => ?_, rfl⟩
    simp only [List.mem_map, hflags]
  · exact absurd rfl (hquiet s)
  · rw [Run.bind_of_failed hrun, Run.bind_of_failed hrun]
    exact ⟨.failed f, ⟨_, .refl _, rfl⟩, nofun⟩
  · rw [Run.bind_of_exhausted hrun, Run.bind_of_exhausted hrun]
    exact ⟨.exhausted what, ⟨_, .refl _, rfl⟩, nofun⟩

end

/-- Two games with the same settings, programs and words, in states that differ in the numbering of
flags only. -/
structure Game.Renumbered (places : Span → Span → Prop) (g g' : Game) : Prop where
  settings : g.settings = g'.settings
  library : g.library.Like Eq places g'.library
  machine : g.machine.Matches World.Renumbered g'.machine
  reader : g.reader = g'.reader

theorem Parameter.Like.eq {p p' : Parameter} (h : p.Like Eq Eq p') : p = p' := by
  have hdefault := eq_of_optionRel Node.Like.eq h.default
  show (⟨p.name, p.default⟩ : Parameter) = p'
  rw [h.name, hdefault]

theorem parameters_eq {params params' : List Parameter}
    (h : List.Forall₂ (Parameter.Like Eq Eq) params params') : params = params' := by
  rw [← List.forall₂_eq_eq_eq]
  exact h.imp fun _ _ => Parameter.Like.eq

theorem Routine.Like.eq {r r' : Routine} (h : r.Like Eq Eq r') : r = r' := by
  show (⟨r.name, r.params, r.locals, r.body⟩ : Routine) = r'
  rw [h.name, parameters_eq h.params, parameters_eq h.locals, Node.Like.allEq h.body]

/-- When places are equal, the two games have the same routines. -/
theorem Game.Renumbered.routines_eq {g g' : Game} (h : g.Renumbered Eq g') (name : String) :
    g.library.routines.get? name = g'.library.routines.get? name :=
  eq_of_optionRel Routine.Like.eq (h.library.routines name)

/-- Two loadings make games that differ in the numbering of flags only, or both fail, or both come
to no end for lack of the same. -/
inductive LoadsAlike (places : Span → Span → Prop) : Outcome Game → Outcome Game → Prop
  | done {g g' : Game} (h : g.Renumbered places g') : LoadsAlike places (.done g) (.done g')
  | failed (f f' : Failure) : LoadsAlike places (.failed f) (.failed f')
  | exhausted (what : Shortage) : LoadsAlike places (.exhausted what) (.exhausted what)

theorem load_of_classify_eq_error {nodes : List Node} {fault : Fault}
    (h : classify nodes = .error fault) (settings : Settings) (fuel : Nat) :
    load settings fuel nodes = .failed (.ofFault fault) := by
  rw [load, h]
  rfl

theorem load_of_classify_eq_ok {nodes : List Node} {ds : List Declaration}
    (h : classify nodes = .ok ds) (settings : Settings) (fuel : Nat) :
    load settings fuel nodes =
      match loadDeclarations settings fuel ds (.initial settings.random) with
      | (.done (library, vocabulary), machine) =>
        .done ⟨settings, library, machine, settings.reader vocabulary⟩
      | (.signal s, _) => .signal s
      | (.failed f, _) => .failed f
      | (.exhausted what, _) => .exhausted what := by
  rw [load, h]
  rfl

/-- The order of declarations of different groups makes no difference but in the numbering of
flags. -/
theorem load_interleaved {places : Span → Span → Prop} {nodes nodes' : List Node}
    (h : Interleaved places nodes nodes') (settings : Settings) (fuel : Nat) :
    LoadsAlike places (load settings fuel nodes) (load settings fuel nodes') := by
  have hall := h.all_eq
  obtain ⟨hok, hds⟩ | ⟨hbad, fault, hfault⟩ := classify_cases nodes
  all_goals obtain ⟨hok', hds'⟩ | ⟨hbad', fault', hfault'⟩ := classify_cases nodes'
  -- both sources can be classified or neither can, so of the four cases two are left
  · have hends := loadDeclarations_endsAlike h.declarations h.mem_declaredFlags settings fuel
      (m := .initial settings.random) .empty
    rw [load_of_classify_eq_ok hds, load_of_classify_eq_ok hds']
    generalize loadDeclarations settings fuel _ _ = ended at hends ⊢
    generalize loadDeclarations settings fuel _ _ = ended' at hends ⊢
    obtain ⟨outcome, m₁⟩ := ended
    obtain ⟨outcome', m₁'⟩ := ended'
    obtain ⟨hout, hmachine, hquiet⟩ := hends
    obtain ⟨hlibrary, hwords⟩ | s | f | what := hout
    · exact .done ⟨rfl, hlibrary, hmachine, congrArg settings.reader hwords⟩
    · exact absurd rfl (hquiet s)
    · exact .failed f f
    · exact .exhausted what
  · rw [hok, hbad'] at hall
    cases hall
  · rw [hbad, hok'] at hall
    cases hall
  · rw [load_of_classify_eq_error hfault, load_of_classify_eq_error hfault']
    exact .failed _ _

/-- A lamp that remembers whether it was lit at first. -/
def lampDeclaration : Node :=
  .form "OBJECT" [.atom "LAMP" default, .list [.atom "LIT" default,
    .form "FSET?" [.reference .comma "LAMP" default, .reference .comma "ONBIT" default] default]
    default] default

/-- A routine that makes the lamp hot. -/
def heatDeclaration : Node :=
  .form "ROUTINE" [.atom "HEAT" default, .list [] default,
    .form "FSET" [.reference .comma "LAMP" default, .reference .comma "HOTBIT" default] default]
    default

/-- Object first or routine first: the flags come in another order, and nothing else changes. -/
theorem load_interleaved_lamp :
    ∃ g g', load .standard 10 [lampDeclaration, heatDeclaration] = .done g ∧
      load .standard 10 [heatDeclaration, lampDeclaration] = .done g' ∧
      g.machine.world.flags.names = ["ONBIT", "HOTBIT"] ∧
      g'.machine.world.flags.names = ["HOTBIT", "ONBIT"] ∧
      LoadsAlike Eq (.done g) (.done g') := by
  have hinterleaved : Interleaved Eq [lampDeclaration, heatDeclaration]
      [heatDeclaration, lampDeclaration] := by
    refine .of_perm (.swap ..) fun group => ?_
    cases group <;> rfl
  exact ⟨_, _, rfl, rfl, rfl, rfl, load_interleaved hinterleaved .standard 10⟩

end TextAdventure
