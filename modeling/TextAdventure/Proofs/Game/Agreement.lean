import TextAdventure.Game.Load
import TextAdventure.Proofs.World.Numbering

/-!
Loading like declarations.

Two declarations are alike when they differ in places only.  In worlds that differ in the numbering
of flags only, each phase of loading does the same with like declarations.

* `EndsAlike`, `Run.Agrees` — two runs end alike, and not with a signal;
* `Declaration.Like` — likeness of declarations;
* `registerObject_eq`, `fillObject_agrees`, `declareValue_agrees`, `defineRoutines_agrees`,
  `declareWords_eq` — the phases of loading, declaration by declaration.

Design notes.  Objects come into being before any flag that code names is known, so up to there the
worlds are equal.  From there on loading runs programs, which `eval_matches` is about.
-/

namespace TextAdventure

/-! ### Ending alike -/

/-- Two runs end with matching outcomes, no signal among them, in worlds that differ in the
numbering of flags only. -/
structure EndsAlike {α β : Type} (V : α → β → Prop) (ended : Outcome α × Machine)
    (ended' : Outcome β × Machine) : Prop where
  outcome : Outcome.Matches V ended.1 ended'.1
  machine : ended.2.Matches World.Renumbered ended'.2
  quiet (s : Signal) : ended.1 ≠ .signal s

/-- From machines that differ in the numbering of flags only, two actions end alike. -/
def Run.Agrees {α β : Type} (V : α → β → Prop) (act : Run α) (act' : Run β) : Prop :=
  ∀ m m', m.Matches World.Renumbered m' → EndsAlike V (act m) (act' m')

theorem Run.quiet_ofExcept {α : Type} (e : Except Fault α) : (Run.ofExcept e).Quiet := by
  intro m s
  rcases e with _ | _
  · exact nofun
  · exact nofun

theorem Run.quiet_changeWorld (f : World → Except Fault World) : (Run.changeWorld f).Quiet := by
  intro m s
  rw [Run.changeWorld]
  rcases f m.world with _ | _
  · intro h
    cases h
  · intro h
    cases h

namespace Run.Agrees

variable {α β γ δ : Type} {V : α → β → Prop} {U : γ → δ → Prop}

theorem of_matches {act : Run α} {act' : Run β} (h : Run.Matches World.Renumbered V act act')
    (hquiet : act.Quiet) : Run.Agrees V act act' :=
  fun m m' hm => ⟨(h m m' hm).1, (h m m' hm).2, hquiet m⟩

theorem pure {a : α} {b : β} (h : V a b) :
    Run.Agrees V (Pure.pure a : Run α) (Pure.pure b : Run β) :=
  .of_matches (.pure h) nofun

theorem fail (fault : Fault) : Run.Agrees V (Run.fail fault) (Run.fail fault) :=
  .of_matches (.fail fault) nofun

theorem bind {act : Run α} {act' : Run β} {next : α → Run γ} {next' : β → Run δ}
    (hact : Run.Agrees V act act') (hnext : ∀ a b, V a b → Run.Agrees U (next a) (next' b)) :
    Run.Agrees U (act >>= next) (act' >>= next') := by
  intro m m' hm
  have hfirst := hact m m' hm
  obtain ⟨ended, m₁, hrun⟩ : ∃ ended m₁, act m = (ended, m₁) := ⟨_, _, rfl⟩
  obtain ⟨ended', m₁', hrun'⟩ : ∃ ended m₁, act' m' = (ended, m₁) := ⟨_, _, rfl⟩
  rw [hrun, hrun'] at hfirst
  obtain ⟨hout, hmachine, hquiet⟩ := hfirst
  -- the second action runs only after a value, and then from machines that match again
  obtain hvalue | s | f | what := hout
  · rw [bind_of_done hrun, bind_of_done hrun']
    exact hnext _ _ hvalue m₁ m₁' hmachine
  · exact absurd rfl (hquiet s)
  · rw [bind_of_failed hrun, bind_of_failed hrun']
    exact ⟨.failed f, hmachine, nofun⟩
  · rw [bind_of_exhausted hrun, bind_of_exhausted hrun']
    exact ⟨.exhausted what, hmachine, nofun⟩

/-- One thing after another, where both sides go on with the same value. -/
theorem andThen {act act' : Run α} {next : α → Run γ} {next' : α → Run δ}
    (hact : Run.Agrees Eq act act') (hnext : ∀ a, Run.Agrees U (next a) (next' a)) :
    Run.Agrees U (act >>= next) (act' >>= next') :=
  bind hact fun a _ h => h ▸ hnext a

theorem ofExcept {e : Except Fault α} {e' : Except Fault β} (h : Attempt.Matches V e e') :
    Run.Agrees V (Run.ofExcept e) (Run.ofExcept e') := by
  obtain hvalue | fault := h
  · exact pure hvalue
  · exact fail fault

theorem readWorld {f : World → α} {g : World → β}
    (h : ∀ w w', World.Renumbered w w' → V (f w) (g w')) :
    Run.Agrees V (Run.readWorld f) (Run.readWorld g) :=
  .of_matches (.read fun m w hw => h m.world w hw) nofun

theorem modifyWorld {f g : World → World}
    (h : ∀ w w', World.Renumbered w w' → World.Renumbered (f w) (g w')) :
    Run.Agrees Eq (Run.modifyWorld f) (Run.modifyWorld g) :=
  .of_matches (.modifyWorld h) nofun

theorem changeWorld {f g : World → Except Fault World}
    (h : ∀ w w', World.Renumbered w w' → Attempt.Matches World.Renumbered (f w) (g w')) :
    Run.Agrees Eq (Run.changeWorld f) (Run.changeWorld g) :=
  .of_matches (.changeWorld h) (quiet_changeWorld f)

theorem forEach {act : α → Run Unit} {act' : β → Run Unit} {as : List α} {bs : List β}
    (h : List.Forall₂ V as bs) (hact : ∀ a b, V a b → Run.Agrees Eq (act a) (act' b)) :
    Run.Agrees Eq (Run.forEach act as) (Run.forEach act' bs) := by
  induction h with
  | nil => exact pure rfl
  | cons hfirst _ ih => exact andThen (hact _ _ hfirst) fun _ => ih

end Run.Agrees

/-! ### Like declarations -/

section

variable {places : Span → Span → Prop}

/-- Likeness of declarations: of one kind, with what stands in them the same up to places. -/
structure Declaration.Like (places : Span → Span → Prop) (d d' : Declaration) : Prop where
  kind : d.kind = d'.kind
  args : Node.AllLike Eq places d.args d'.args

structure Clause.Like (places : Span → Span → Prop) (c c' : Clause) : Prop where
  name : c.name = c'.name
  args : Node.AllLike Eq places c.args c'.args

theorem eq_of_optionRel {α : Type} {V : α → α → Prop} (hV : ∀ {a b}, V a b → a = b)
    {a b : Option α} (h : Option.Rel V a b) : a = b := by
  obtain hsame | _ := h
  · rw [hV hsame]
  · rfl

theorem atomNames_eq {nodes nodes' : List Node} (h : Node.AllLike Eq places nodes nodes') :
    atomNames nodes = atomNames nodes' := by
  rw [← List.forall₂_eq_eq_eq]
  exact List.rel_filterMap (fun _ _ hnode => hnode.atom?) h

/-- What stands first among like nodes. -/
theorem firstName_eq {nodes nodes' : List Node} (h : Node.AllLike Eq places nodes nodes') :
    nodes.head?.bind Node.name? = nodes'.head?.bind Node.name? := by
  obtain _ | ⟨hfirst, _⟩ := h
  · rfl
  · exact eq_of_optionRel id hfirst.name?

theorem getElem?_one_like {nodes nodes' : List Node} (h : Node.AllLike Eq places nodes nodes') :
    Option.Rel (Node.Like Eq places) nodes[1]? nodes'[1]? := by
  obtain _ | ⟨_, _ | ⟨hsecond, _⟩⟩ := h
  · exact .none
  · exact .none
  · exact .some hsecond

namespace Declaration.Like

variable {d d' : Declaration} (h : d.Like places d')
include h

theorem declaredName_eq : d.declaredName = d'.declaredName := by
  rw [declaredName, declaredName, firstName_eq h.args, h.kind]

theorem clauses_like : List.Forall₂ (Clause.Like places) d.clauses d'.clauses := by
  refine List.rel_filterMap ?_ (List.forall₂_drop 1 h.args)
  intro node node' hnode
  cases hnode with
  | list hitems _ =>
    obtain _ | ⟨hfirst, hrest⟩ := hitems
    · exact .none
    · cases hfirst with
      | atom hname _ => exact .some ⟨congrArg canonical hname, hrest⟩
      | _ => exact .none
  | _ => exact .none

end Declaration.Like

/-! ### Bringing objects into being -/

theorem specOf_eq {clauses clauses' : List Clause}
    (h : List.Forall₂ (Clause.Like places) clauses clauses') (name : String) :
    specOf name clauses = specOf name clauses' := by
  rw [specOf, specOf]
  generalize ObjectSpec.named name = spec
  induction h generalizing spec with
  | nil => rfl
  | cons hclause _ ih =>
    simp only [List.foldl_cons, hclause.name, atomNames_eq hclause.args, firstName_eq hclause.args]
    exact ih _

theorem registerObject_eq {d d' : Declaration} (h : d.Like places d') :
    registerObject d = registerObject d' := by
  rw [registerObject, registerObject, h.declaredName_eq]
  refine congrArg (_ >>= ·) (funext fun name => ?_)
  rw [specOf_eq h.clauses_like]

/-! ### Values -/

variable {lib lib' : Library}

theorem constantValue_agrees (hlib : lib.Like Eq places lib') (fuel : Nat) {node node' : Node}
    (h : node.Like Eq places node') :
    Run.Agrees Eq (constantValue lib fuel node) (constantValue lib' fuel node') := by
  have hmatch := eval_matches World.renumbered_bisimulation (fun hs => congrArg canonical hs) hlib
    fuel h
  refine .of_matches hmatch.collapse.atTopLevel fun m s => ?_
  exact Run.quiet_collapse _ _ s

theorem nameValue_agrees (name : String) : Run.Agrees Eq (nameValue name) (nameValue name) :=
  .readWorld fun w w' hw => by rw [hw.looks.lookup?]

mutual

theorem literalValue_agrees (hlib : lib.Like Eq places lib') (fuel : Nat) :
    ∀ {node node' : Node}, node.Like Eq places node' →
      Run.Agrees Eq (literalValue lib fuel node) (literalValue lib' fuel node')
  | .atom name _, _, .atom hname _ => by
    rw [literalValue, literalValue, hname]
    split
    · exact .pure rfl
    · exact nameValue_agrees _
  | .reference _ _ _, _, .reference _ hname _ => by
    rw [literalValue, literalValue, hname]
    exact nameValue_agrees _
  | .empty _, _, .empty _ => by
    rw [literalValue, literalValue]
    exact .pure rfl
  | .list [] _, _, .list .nil _ => by
    rw [literalValue, literalValue]
    exact .pure rfl
  | .list (item :: items) _, _, .list (.cons hitem hitems) _ => by
    rw [literalValue, literalValue]
    refine .andThen (literalValue_agrees hlib fuel hitem) fun value => ?_
    exact .andThen (literalValues_agrees hlib fuel hitems) fun values => .pure rfl
  | .form _ _ _, _, .form hoperator hargs hs => by
    rw [literalValue, literalValue]
    exact constantValue_agrees hlib fuel (.form hoperator hargs hs)
  | .literal _ _, _, .literal _ _ => by
    rw [literalValue, literalValue]
    exact .pure rfl
  | .marked _ _ _, _, .marked hmarker hbody hs => by
    rw [literalValue, literalValue]
    exact constantValue_agrees hlib fuel (.marked hmarker hbody hs)

theorem literalValues_agrees (hlib : lib.Like Eq places lib') (fuel : Nat) :
    ∀ {nodes nodes' : List Node}, Node.AllLike Eq places nodes nodes' →
      Run.Agrees Eq (literalValues lib fuel nodes) (literalValues lib' fuel nodes')
  | [], _, .nil => by
    rw [literalValues, literalValues]
    exact .pure rfl
  | _ :: _, _, .cons hnode hnodes => by
    rw [literalValues, literalValues]
    refine .andThen (literalValue_agrees hlib fuel hnode) fun value => ?_
    exact .andThen (literalValues_agrees hlib fuel hnodes) fun values => .pure rfl

end

variable (hlib : lib.Like Eq places lib') (fuel : Nat)
include hlib

omit hlib in
theorem isWord_eq {node node' : Node} (h : node.Like Eq places node') (word : String) :
    isWord word node = isWord word node' := by
  cases h with
  | atom hname _ => rw [hname]; rfl
  | _ => rfl

theorem propertyValue_agrees {nodes nodes' : List Node} (h : Node.AllLike Eq places nodes nodes') :
    Run.Agrees Eq (propertyValue lib fuel nodes) (propertyValue lib' fuel nodes') := by
  obtain _ | ⟨hmarker, _ | ⟨htarget, hrest⟩⟩ := h
  · exact .pure rfl
  · exact literalValue_agrees hlib fuel hmarker
  · rw [propertyValue, propertyValue, isWord_eq hmarker, isWord_eq hmarker,
      eq_of_optionRel id htarget.name?]
    split
    · exact literalValue_agrees hlib fuel htarget
    · split
      · split
        · exact .pure rfl
        · exact .fail _
      · refine .andThen (literalValues_agrees hlib fuel (.cons hmarker (.cons htarget hrest)))
          fun values => .pure rfl

/-! ### Filling objects and globals -/

omit hlib in
theorem containerOf_eq {c c' : Clause} (h : c.Like places c') {w w' : World}
    (hw : World.Renumbered w w') : containerOf w c = containerOf w' c' := by
  simp only [containerOf, firstName_eq h.args, h.name, hw.looks.lookup?]

theorem fillClause_agrees (o : ObjectId) {c c' : Clause} (h : c.Like places c') :
    Run.Agrees Eq (fillClause lib fuel o c) (fillClause lib' fuel o c') := by
  have hidentity : c.isIdentity = c'.isIdentity := by rw [Clause.isIdentity, h.name]; rfl
  have hplace : c.isPlace = c'.isPlace := by rw [Clause.isPlace, h.name]; rfl
  rw [fillClause, fillClause, hidentity, hplace]
  split
  · exact .pure rfl
  split
  · refine .changeWorld fun w w' hw => ?_
    rw [containerOf_eq h hw]
    split
    · exact hw.edit (.move trivial trivial)
    · exact .error _
  · refine .andThen (propertyValue_agrees hlib fuel h.args) fun value => ?_
    rw [h.name]
    exact .changeWorld fun w w' hw => hw.edit (.putProperty trivial _ trivial)

theorem fillObject_agrees {d d' : Declaration} (h : d.Like places d') :
    Run.Agrees Eq (fillObject lib fuel d) (fillObject lib' fuel d') := by
  rw [fillObject, fillObject, h.declaredName_eq]
  refine .andThen (.ofExcept (.refl _)) fun name => ?_
  refine .andThen (.readWorld fun w w' hw => hw.looks.lookup? name) fun found => ?_
  cases found with
  | some o => exact .forEach h.clauses_like fun _ _ hclause => fillClause_agrees hlib fuel o hclause
  | none => exact .fail _

theorem namedValue_agrees {d d' : Declaration} (h : d.Like places d') :
    Run.Agrees Eq (namedValue lib fuel d) (namedValue lib' fuel d') := by
  have hsecond := getElem?_one_like h.args
  rw [namedValue, namedValue, h.declaredName_eq]
  refine .andThen (.ofExcept (.refl _)) fun name => ?_
  generalize d.args[1]? = found at hsecond ⊢
  generalize d'.args[1]? = found' at hsecond ⊢
  obtain hnode | _ := hsecond
  · exact .andThen (literalValue_agrees hlib fuel hnode) fun value => .pure rfl
  · exact .pure rfl

theorem declareValue_agrees {d d' : Declaration} (h : d.Like places d') :
    Run.Agrees Eq (declareValue lib fuel d) (declareValue lib' fuel d') := by
  have hnamed := namedValue_agrees hlib fuel h
  have hglobal (named : String × Value) :
      Run.Agrees Eq (Run.modifyWorld (·.setGlobal named.1 named.2))
        (Run.modifyWorld (·.setGlobal named.1 named.2)) :=
    .modifyWorld fun w w' hw => hw.setGlobal named.1 named.2
  rw [declareValue, declareValue, h.kind]
  -- the three kinds of globals, property defaults, and all that declares no value
  split
  · exact .andThen hnamed hglobal
  · exact .andThen hnamed hglobal
  · exact .andThen hnamed hglobal
  · exact .andThen hnamed fun named =>
      .modifyWorld fun w w' hw => hw.setPropertyDefault named.1 named.2
  · exact .pure rfl

/-! ### Routines -/

omit hlib in
mutual

/-- In worlds that differ in the numbering of flags, a value is written in the same way. -/
theorem nodeOfValue_like {w w' : World} (hw : World.Renumbered w w') {s s' : Span}
    (hs : places s s') : ∀ value : Value,
      Attempt.Matches (Node.Like Eq places) (nodeOfValue w s value) (nodeOfValue w' s' value)
  | .bool true => .ok (.atom rfl hs)
  | .bool false => .ok (.empty hs)
  | .int n => .ok (.literal _ hs)
  | .float x => .ok (.literal _ hs)
  | .string text => .ok (.literal _ hs)
  | .atom name => .ok (.marked .quote (.atom rfl hs) hs)
  | .char c => .ok (.literal _ hs)
  | .object o => .ok (.reference _ (hw.looks.objectName o) hs)
  | .routine name => .ok (.reference _ rfl hs)
  | .table t => .error _
  | .list items => by
    rw [nodeOfValue, nodeOfValue]
    exact (nodesOfValues_like hw hs items).bind fun _ _ hnodes => .ok (.list hnodes hs)

theorem nodesOfValues_like {w w' : World} (hw : World.Renumbered w w') {s s' : Span}
    (hs : places s s') : ∀ values : List Value,
      Attempt.Matches (Node.AllLike Eq places) (nodesOfValues w s values)
        (nodesOfValues w' s' values)
  | [] => .ok .nil
  | value :: values => by
    rw [nodesOfValues, nodesOfValues]
    refine (nodeOfValue_like hw hs value).bind fun _ _ hnode => ?_
    exact (nodesOfValues_like hw hs values).bind fun _ _ hnodes => .ok (.cons hnode hnodes)

end

omit hlib in
theorem preEvaluate_marked {fuel : Nat} (marker : Marker) {body : Node} {s : Span}
    (h : marker ≠ .percent) :
    preEvaluate lib fuel (.marked marker body s) = pure (.marked marker body s) := by
  rw [preEvaluate]
  exact h

omit hlib in
mutual

theorem preEvaluate_agrees (hlib : lib.Like Eq places lib') (fuel : Nat) :
    ∀ {node node' : Node}, node.Like Eq places node' →
      Run.Agrees (Node.Like Eq places) (preEvaluate lib fuel node) (preEvaluate lib' fuel node')
  | .marked .percent body _, _, .marked .percent hbody hs => by
    rw [preEvaluate, preEvaluate]
    refine .andThen (constantValue_agrees hlib fuel hbody) fun value => ?_
    refine .bind (.readWorld fun w w' hw => nodeOfValue_like hw hs value) fun _ _ h => ?_
    exact .ofExcept h
  | .form _ args _, _, .form hoperator hargs hs => by
    rw [preEvaluate, preEvaluate]
    exact .bind (preEvaluateAll_agrees hlib fuel hargs) fun _ _ h => .pure (.form hoperator h hs)
  | .list items _, _, .list hitems hs => by
    rw [preEvaluate, preEvaluate]
    exact .bind (preEvaluateAll_agrees hlib fuel hitems) fun _ _ h => .pure (.list h hs)
  | .marked .quote _ _, _, .marked .quote hbody hs => by
    rw [preEvaluate_marked .quote nofun, preEvaluate_marked .quote nofun]
    exact .pure (.marked .quote hbody hs)
  | .marked .quasiquote _ _, _, .marked .quasiquote hbody hs => by
    rw [preEvaluate_marked .quasiquote nofun, preEvaluate_marked .quasiquote nofun]
    exact .pure (.marked .quasiquote hbody hs)
  | .marked .splice _ _, _, .marked .splice hbody hs => by
    rw [preEvaluate_marked .splice nofun, preEvaluate_marked .splice nofun]
    exact .pure (.marked .splice hbody hs)
  | .marked (.tag _) _ _, _, .marked (.tag hname) hbody hs => by
    rw [preEvaluate_marked (.tag _) nofun, preEvaluate_marked (.tag _) nofun]
    exact .pure (.marked (.tag hname) hbody hs)
  | .empty _, _, .empty hs => by
    rw [preEvaluate, preEvaluate]
    exact .pure (.empty hs)
  | .atom _ _, _, .atom hname hs => by
    rw [preEvaluate, preEvaluate]
    exact .pure (.atom hname hs)
  | .reference _ _ _, _, .reference sigil hname hs => by
    rw [preEvaluate, preEvaluate]
    exact .pure (.reference sigil hname hs)
  | .literal _ _, _, .literal value hs => by
    rw [preEvaluate, preEvaluate]
    exact .pure (.literal value hs)

theorem preEvaluateAll_agrees (hlib : lib.Like Eq places lib') (fuel : Nat) :
    ∀ {nodes nodes' : List Node}, Node.AllLike Eq places nodes nodes' →
      Run.Agrees (Node.AllLike Eq places) (preEvaluateAll lib fuel nodes)
        (preEvaluateAll lib' fuel nodes')
  | [], _, .nil => by
    rw [preEvaluateAll, preEvaluateAll]
    exact .pure .nil
  | _ :: _, _, .cons hnode hnodes => by
    rw [preEvaluateAll, preEvaluateAll]
    refine .bind (preEvaluate_agrees hlib fuel hnode) fun _ _ hfirst => ?_
    exact .bind (preEvaluateAll_agrees hlib fuel hnodes) fun _ _ hrest => .pure (.cons hfirst hrest)

end

omit hlib in
theorem entry_like (name : String) {node node' : Node} (h : node.Like Eq places node') :
    Attempt.Matches (Sum.LiftRel Eq (Parameter.Like Eq places)) (Routine.entry name node)
      (Routine.entry name node') := by
  have hother : Attempt.Matches (Sum.LiftRel (@Eq ArgumentPart) (Parameter.Like Eq places))
      (.error (.unsupportedSyntax (node.kindName ++ " in argument list of " ++ name)))
      (.error (.unsupportedSyntax (node'.kindName ++ " in argument list of " ++ name))) := by
    rw [h.kindName]
    exact .error _
  cases h with
  | atom hname _ => exact .ok (.inr ⟨congrArg canonical hname, .none⟩)
  | list hitems _ =>
    -- only a pair of an atom and a node is a parameter
    obtain _ | ⟨hfirst, _ | ⟨hsecond, _ | ⟨_, _⟩⟩⟩ := hitems
    · exact .error _
    · cases hfirst <;> exact .error _
    · cases hfirst with
      | atom hname _ => exact .ok (.inr ⟨congrArg canonical hname, .some hsecond⟩)
      | _ => exact .error _
    · cases hfirst <;> exact .error _
  | literal value _ =>
    cases value with
    | string marker =>
      rw [Routine.entry, Routine.entry]
      rcases Routine.partOf? marker with _ | part
      · exact .error _
      · exact .ok (.inl rfl)
    | _ => exact hother
  | _ => exact hother

/-- Likeness of two pairs of parameter lists. -/
def ParametersLike (places : Span → Span → Prop)
    (made made' : List Parameter × List Parameter) : Prop :=
  List.Forall₂ (Parameter.Like Eq places) made.1 made'.1 ∧
    List.Forall₂ (Parameter.Like Eq places) made.2 made'.2

omit hlib in
theorem entries_like (name : String) {nodes nodes' : List Node}
    (h : Node.AllLike Eq places nodes nodes') (part : ArgumentPart) :
    Attempt.Matches (ParametersLike places) (Routine.entries name part nodes)
      (Routine.entries name part nodes') := by
  induction h generalizing part with
  | nil => exact .ok ⟨.nil, .nil⟩
  | cons hnode _ ih =>
    rw [Routine.entries, Routine.entries]
    refine (entry_like name hnode).bind fun found found' hfound => ?_
    cases hfound with
    | @inl next next' hnext =>
      obtain rfl := hnext
      exact ih next
    | inr hparam =>
      refine (ih part).bind fun made made' hmade => ?_
      cases part with
      | params => exact .ok ⟨.cons hparam hmade.1, hmade.2⟩
      | locals => exact .ok ⟨hmade.1, .cons hparam hmade.2⟩

omit hlib in
theorem ofDeclaration_like (name : String) {arguments arguments' body body' : List Node}
    (harguments : Node.AllLike Eq places arguments arguments')
    (hbody : Node.AllLike Eq places body body') :
    Attempt.Matches (Routine.Like Eq places) (Routine.ofDeclaration name arguments body)
      (Routine.ofDeclaration name arguments' body') := by
  rw [Routine.ofDeclaration, Routine.ofDeclaration]
  exact (entries_like name harguments .params).bind fun made made' hmade =>
    .ok ⟨rfl, hmade.1, hmade.2, hbody⟩

theorem buildRoutine_agrees {d d' : Declaration} (h : d.Like places d') :
    Run.Agrees (Routine.Like Eq places) (buildRoutine lib fuel d) (buildRoutine lib' fuel d') := by
  have hitems : Option.Rel (Node.AllLike Eq places) (d.args[1]?.bind Node.items?)
      (d'.args[1]?.bind Node.items?) := by
    have hsecond := getElem?_one_like h.args
    generalize d.args[1]? = found at hsecond ⊢
    generalize d'.args[1]? = found' at hsecond ⊢
    obtain hnode | _ := hsecond
    · exact hnode.items?
    · exact .none
  rw [buildRoutine, buildRoutine, h.declaredName_eq]
  refine .andThen (.ofExcept (.refl _)) fun name => ?_
  generalize d.args[1]?.bind Node.items? = found at hitems ⊢
  generalize d'.args[1]?.bind Node.items? = found' at hitems ⊢
  obtain harguments | _ := hitems
  · refine .bind (preEvaluateAll_agrees hlib fuel (List.forall₂_drop 2 h.args)) fun _ _ hbody => ?_
    have hroutine := ofDeclaration_like name harguments hbody
    generalize Routine.ofDeclaration name _ _ = made at hroutine ⊢
    generalize Routine.ofDeclaration name _ _ = made' at hroutine ⊢
    obtain hroutine | fault := hroutine
    · exact .pure hroutine
    · exact fun _ _ hm => ⟨.failed _, hm, nofun⟩
  · exact .fail _

theorem Library.Like.define {routine routine' : Routine} (h : routine.Like Eq places routine') :
    Library.Like Eq places { lib with routines := lib.routines.define routine }
      { lib' with routines := lib'.routines.define routine' } where
  operations := hlib.operations
  maxDepth := hlib.maxDepth
  maxCells := hlib.maxCells
  actorGlobal := hlib.actorGlobal
  routines name := by
    simp only [RoutineTable.define, NameMap.get?_insert, h.name]
    split
    · exact .some h
    · exact hlib.routines name

theorem defineRoutines_agrees {ds ds' : List Declaration}
    (h : List.Forall₂ (Declaration.Like places) ds ds') :
    Run.Agrees (Library.Like Eq places) (defineRoutines fuel lib ds)
      (defineRoutines fuel lib' ds') := by
  induction h generalizing lib lib' with
  | nil => exact .pure hlib
  | cons hd _ ih =>
    exact .bind (buildRoutine_agrees hlib fuel hd) fun _ _ hroutine => ih (hlib.define hroutine)

/-! ### Words -/

omit hlib in
theorem declareWords_eq {d d' : Declaration} (h : d.Like places d') (v : Vocabulary) :
    declareWords v d = declareWords v d' := by
  simp only [declareWords, h.kind, atomNames_eq h.args]

omit hlib in
theorem declareVocabulary_eq {ds ds' : List Declaration}
    (h : List.Forall₂ (Declaration.Like places) ds ds') (v : Vocabulary) :
    declareVocabulary v ds = declareVocabulary v ds' := by
  induction h generalizing v with
  | nil => rfl
  | cons hd _ ih => simp only [declareVocabulary, declareWords_eq hd, ih]

end

end TextAdventure
