import TextAdventure.Game.Load
import TextAdventure.Proofs.Program.Logic

/-!
Rules for reasoning about loading.

Loading a game is put together from evaluations at top level, from the changes a program can make
and from a few more.  A judgement about programs that these further changes satisfy as well holds
of loading.

* `LoadLogic` — the rules a judgement has to obey;
* `LoadLogic.loadDeclarations` — it then holds of loading all declarations;
* `load_eq_done` — a loaded game has the machine that this leaves behind.

Design notes.  While a game is loaded any fault may come up, since a declaration may name what is
not there.
-/

namespace TextAdventure

/-- The rules that a judgement has to obey to hold of loading. -/
structure LoadLogic (J : Judgement) : Prop where
  program (lib : Library) : ProgramLogic J lib
  fails (fault : Fault) : J.Fails fault
  constantValue {s : J.Stage} (lib : Library) (fuel : Nat) (node : Node) :
    J.Holds s J.Good (constantValue lib fuel node) (constantValue lib fuel node)
  register {s : J.Stage} (spec : ObjectSpec) (h : ∀ p ∈ spec.properties, J.Good s p.2) :
    J.Holds s J.Any (Run.changeWorld fun w => (w.register spec).map (·.1))
      (Run.changeWorld fun w => (w.register spec).map (·.1))
  declareFlags {s : J.Stage} (names : List String) :
    J.Holds s J.Any (Run.modifyWorld fun w => names.foldl World.declareFlag w)
      (Run.modifyWorld fun w => names.foldl World.declareFlag w)
  place {s : J.Stage} {o : ObjectId} (ho : J.GoodObject s o) (clause : Clause) :
    J.Holds s J.Any
      (Run.changeWorld fun w =>
        match containerOf w clause with
        | .ok container => w.move o container
        | .error fault => .error fault)
      (Run.changeWorld fun w =>
        match containerOf w clause with
        | .ok container => w.move o container
        | .error fault => .error fault)
  setPropertyDefault {s : J.Stage} (name : String) {value : Value} (h : J.Good s value) :
    J.Holds s J.Any (Run.modifyWorld (·.setPropertyDefault name value))
      (Run.modifyWorld (·.setPropertyDefault name value))
  failIn {s : J.Stage} {α : Type} {V : J.Stage → α → Prop} (fault : Fault) (name : String) :
    J.Holds s V (fun m => (.failed ((Failure.ofFault fault).inRoutine name), m))
      (fun m => (.failed ((Failure.ofFault fault).inRoutine name), m))

/-- The clauses of an object say nothing about what they are not looked through for. -/
theorem specOf_keeps {α : Type} (f : ObjectSpec → α)
    (hf : ∀ spec flags synonyms adjectives action, f { spec with
      flags := flags, synonyms := synonyms, adjectives := adjectives, action := action } = f spec)
    (name : String) (clauses : List Clause) : f (specOf name clauses) = f (.named name) := by
  rw [specOf]
  refine List.foldlRecOn (motive := fun spec : ObjectSpec => f spec = f (.named name)) clauses _ rfl
    fun spec h clause _ => ?_
  split
  · exact (hf spec _ _ _ _).trans h
  split
  · exact (hf spec _ _ _ _).trans h
  split
  · exact (hf spec _ _ _ _).trans h
  split
  · split
    · exact (hf spec _ _ _ _).trans h
    · exact h
  · exact h

/-- An object comes into being without properties. -/
theorem properties_specOf (name : String) (clauses : List Clause) :
    (specOf name clauses).properties = [] :=
  specOf_keeps (·.properties) (fun _ _ _ _ _ => rfl) name clauses

/-- An object comes into being under its declared name. -/
theorem name_specOf (name : String) (clauses : List Clause) : (specOf name clauses).name = name :=
  specOf_keeps (·.name) (fun _ _ _ _ _ => rfl) name clauses

/-- A declared object comes into being by registering it. -/
theorem register_of_map_eq_ok {w w' : World} {spec : ObjectSpec}
    (h : (w.register spec).map (·.1) = .ok w') : ∃ o, w.register spec = .ok (w', o) := by
  rcases hr : w.register spec with _ | ⟨made, o⟩
  · rw [hr] at h
    cases h
  · rw [hr] at h
    cases h
    exact ⟨o, rfl⟩

namespace LoadLogic

variable {J : Judgement} {s : J.Stage} (L : LoadLogic J)
include L

theorem pure {α : Type} {V : J.Stage → α → Prop} {a : α} (h : V s a) :
    J.Holds s V (pure a) (pure a) :=
  (L.program .standard).pure h

theorem bind {α β : Type} {V : J.Stage → α → Prop} {U : J.Stage → β → Prop} {act : Run α}
    {next : α → Run β} (hact : J.Holds s V act act)
    (hnext : ∀ t, J.Later s t → ∀ a, V t a → J.Holds t U (next a) (next a)) :
    J.Holds s U (act >>= next) (act >>= next) :=
  (L.program .standard).bind hact hnext

theorem fail {α : Type} {V : J.Stage → α → Prop} (fault : Fault) :
    J.Holds s V (Run.fail fault) (Run.fail fault) :=
  (L.program .standard).fail (L.fails fault)

theorem ofExcept {α : Type} (e : Except Fault α) :
    J.Holds s J.Any (Run.ofExcept e) (Run.ofExcept e) := by
  cases e with
  | ok a => exact L.pure trivial
  | error fault => exact L.fail fault

theorem good_later {t : J.Stage} (h : J.Later s t) {v : Value} (hv : J.Good s v) : J.Good t v :=
  (L.program .standard).good_later h hv

theorem good_plain {v : Value} (h : v.isPlain = true) : J.Good s v :=
  (L.program .standard).good_plain h

theorem look {α : Type} (f : World → α) : J.Holds s J.Any (Run.readWorld f) (Run.readWorld f) :=
  (L.program .standard).look f

/-! ### Objects and globals -/

theorem registerObject (d : Declaration) :
    J.Holds s J.Any (registerObject d) (registerObject d) := by
  refine L.bind (L.ofExcept _) fun t _ name _ => L.register (specOf name d.clauses) fun p hp => ?_
  rw [properties_specOf] at hp
  cases hp

theorem nameValue (name : String) : J.Holds s J.Good (nameValue name) (nameValue name) := by
  refine (L.program .standard).readWorld fun m hm => ?_
  cases ho : m.world.lookup? name with
  | some o => exact ((L.program .standard).gives hm).lookup? ho
  | none => exact L.good_plain rfl

mutual

theorem literalValue (lib : Library) (fuel : Nat) : ∀ {s : J.Stage} (node : Node),
    J.Holds s J.Good (literalValue lib fuel node) (literalValue lib fuel node)
  | s, .atom name _ => by
    rw [TextAdventure.literalValue]
    split
    · exact L.pure (L.good_plain rfl)
    · exact L.nameValue name
  | s, .reference _ name _ => by
    rw [TextAdventure.literalValue]
    exact L.nameValue name
  | s, .empty _ => by
    rw [TextAdventure.literalValue]
    exact L.pure (L.good_plain rfl)
  | s, .list [] _ => by
    rw [TextAdventure.literalValue]
    exact L.pure (L.good_plain rfl)
  | s, .list (item :: items) _ => by
    rw [TextAdventure.literalValue]
    refine L.bind (literalValue lib fuel item) fun t _ value hvalue => ?_
    refine L.bind (literalValues lib fuel items) fun u hu values hvalues => ?_
    refine L.pure ((L.program lib).good_list.mpr fun v hv => ?_)
    rcases List.mem_cons.mp hv with rfl | hv
    · exact L.good_later hu hvalue
    · exact hvalues v hv
  | s, .form _ _ _ => by
    rw [TextAdventure.literalValue]
    exact L.constantValue lib fuel _
  | s, .literal value _ => by
    rw [TextAdventure.literalValue]
    cases value <;> exact L.pure (L.good_plain rfl)
  | s, .marked _ _ _ => by
    rw [TextAdventure.literalValue]
    exact L.constantValue lib fuel _

theorem literalValues (lib : Library) (fuel : Nat) : ∀ {s : J.Stage} (nodes : List Node),
    J.Holds s J.GoodAll (literalValues lib fuel nodes) (literalValues lib fuel nodes)
  | s, [] => by
    rw [TextAdventure.literalValues]
    exact L.pure fun _ hv => nomatch hv
  | s, node :: nodes => by
    rw [TextAdventure.literalValues]
    refine L.bind (literalValue lib fuel node) fun t _ value hvalue => ?_
    refine L.bind (literalValues lib fuel nodes) fun u hu values hvalues => L.pure fun v hv => ?_
    rcases List.mem_cons.mp hv with rfl | hv
    · exact L.good_later hu hvalue
    · exact hvalues v hv

end

theorem propertyValue (lib : Library) (fuel : Nat) (nodes : List Node) :
    J.Holds s J.Good (propertyValue lib fuel nodes) (propertyValue lib fuel nodes) := by
  rw [TextAdventure.propertyValue.eq_def]
  split
  · exact L.pure (L.good_plain rfl)
  · exact L.literalValue lib fuel _
  · split
    · exact L.literalValue lib fuel _
    · split
      · split
        · exact L.pure (L.good_plain rfl)
        · exact L.fail _
      · exact L.bind (L.literalValues lib fuel _) fun _ _ _ hvalues =>
          L.pure ((L.program lib).good_list.mpr hvalues)

theorem fillClause (lib : Library) (fuel : Nat) {o : ObjectId} (ho : J.GoodObject s o)
    (clause : Clause) :
    J.Holds s J.Any (fillClause lib fuel o clause) (fillClause lib fuel o clause) := by
  rw [TextAdventure.fillClause]
  split
  · exact L.pure trivial
  · split
    · exact L.place ho clause
    · refine L.bind (L.propertyValue lib fuel clause.args) fun t ht value hvalue => ?_
      exact (L.program lib).changeWorld (.putProperty (L.good_later ht ho) clause.name hvalue)

/-- Doing something with each of some things, where what makes it right stays so. -/
theorem forEach {α : Type} {act : α → Run Unit} {H : J.Stage → Prop}
    (hlater : ∀ {s t}, J.Later s t → H s → H t)
    (hact : ∀ {t}, H t → ∀ a, J.Holds t J.Any (act a) (act a)) (hs : H s)
    (as : List α) : J.Holds s J.Any (Run.forEach act as) (Run.forEach act as) := by
  induction as generalizing s with
  | nil => exact L.pure trivial
  | cons a as ih => exact L.bind (hact hs a) fun t ht _ _ => ih (hlater ht hs)

theorem fillObject (lib : Library) (fuel : Nat) (d : Declaration) :
    J.Holds s J.Any (fillObject lib fuel d) (fillObject lib fuel d) := by
  refine L.bind (L.ofExcept _) fun t _ name _ => ?_
  refine L.bind (V := fun u found => ∀ o, found = some o → J.GoodObject u o)
    ((L.program lib).readWorld fun m hm o ho => ((L.program lib).gives hm).lookup? ho)
    fun u _ found hfound => ?_
  cases found with
  | some o =>
    exact L.forEach (fun ht ho => L.good_later ht ho) (L.fillClause lib fuel) (hfound o rfl)
      d.clauses
  | none => exact L.fail _

theorem namedValue (lib : Library) (fuel : Nat) (d : Declaration) :
    J.Holds s (fun t named => J.Good t named.2) (namedValue lib fuel d)
      (namedValue lib fuel d) := by
  refine L.bind (L.ofExcept _) fun t _ name _ => ?_
  split
  · exact L.bind (L.literalValue lib fuel _) fun _ _ _ hvalue => L.pure hvalue
  · exact L.pure (L.good_plain rfl)

theorem declareValue (lib : Library) (fuel : Nat) (d : Declaration) :
    J.Holds s J.Any (declareValue lib fuel d) (declareValue lib fuel d) := by
  have hnamed {t : J.Stage} := L.namedValue (s := t) lib fuel d
  have hglobal {t : J.Stage} (named : String × Value) (hvalue : J.Good t named.2) :=
    (L.program lib).setGlobal named.1 hvalue
  rw [TextAdventure.declareValue]
  split
  · exact L.bind hnamed fun _ _ => hglobal
  · exact L.bind hnamed fun _ _ => hglobal
  · exact L.bind hnamed fun _ _ => hglobal
  · exact L.bind hnamed fun _ _ named hvalue => L.setPropertyDefault named.1 hvalue
  · exact L.pure trivial

/-! ### Routines -/

mutual

theorem preEvaluate (lib : Library) (fuel : Nat) : ∀ {s : J.Stage} (node : Node),
    J.Holds s J.Any (preEvaluate lib fuel node) (preEvaluate lib fuel node)
  | s, .marked .percent body _ => by
    rw [TextAdventure.preEvaluate]
    exact L.bind (L.constantValue lib fuel body) fun _ _ _ _ =>
      L.bind (L.look _) fun _ _ e _ => L.ofExcept e
  | s, .form _ args _ => by
    rw [TextAdventure.preEvaluate]
    exact L.bind (preEvaluateAll lib fuel args) fun _ _ _ _ => L.pure trivial
  | s, .list items _ => by
    rw [TextAdventure.preEvaluate]
    exact L.bind (preEvaluateAll lib fuel items) fun _ _ _ _ => L.pure trivial
  | s, .marked .quote _ _ | s, .marked .quasiquote _ _ | s, .marked .splice _ _
  | s, .marked (.tag _) _ _ => by
    rw [TextAdventure.preEvaluate]
    · exact L.pure trivial
    · simp
  | s, .empty _ | s, .atom _ _ | s, .reference _ _ _ | s, .literal _ _ => by
    rw [TextAdventure.preEvaluate]
    exact L.pure trivial

theorem preEvaluateAll (lib : Library) (fuel : Nat) : ∀ {s : J.Stage} (nodes : List Node),
    J.Holds s J.Any (preEvaluateAll lib fuel nodes) (preEvaluateAll lib fuel nodes)
  | s, [] => by
    rw [TextAdventure.preEvaluateAll]
    exact L.pure trivial
  | s, node :: nodes => by
    rw [TextAdventure.preEvaluateAll]
    exact L.bind (preEvaluate lib fuel node) fun _ _ _ _ =>
      L.bind (preEvaluateAll lib fuel nodes) fun _ _ _ _ => L.pure trivial

end

theorem buildRoutine (lib : Library) (fuel : Nat) (d : Declaration) :
    J.Holds s J.Any (buildRoutine lib fuel d) (buildRoutine lib fuel d) := by
  refine L.bind (L.ofExcept _) fun t _ name _ => ?_
  split
  · exact L.fail _
  · refine L.bind (L.preEvaluateAll lib fuel _) fun u _ body _ => ?_
    split
    · exact L.pure trivial
    · exact L.failIn _ _

theorem defineRoutines (fuel : Nat) (lib : Library) (ds : List Declaration) :
    J.Holds s J.Any (defineRoutines fuel lib ds) (defineRoutines fuel lib ds) := by
  induction ds generalizing s lib with
  | nil => exact L.pure trivial
  | cons d ds ih => exact L.bind (L.buildRoutine lib fuel d) fun _ _ _ _ => ih _

/-! ### Games -/

/-- The judgement holds of loading declarations. -/
theorem loadDeclarations (settings : Settings) (fuel : Nat) (ds : List Declaration) :
    J.Holds s J.Any (loadDeclarations settings fuel ds) (loadDeclarations settings fuel ds) := by
  have hall {t : J.Stage} {act : Declaration → Run Unit}
      (hact : ∀ {t : J.Stage} d, J.Holds t J.Any (act d) (act d)) (ds : List Declaration) :
      J.Holds t J.Any (Run.forEach act ds) (Run.forEach act ds) :=
    L.forEach (H := fun _ => True) (fun _ _ => trivial) (fun _ => hact) trivial ds
  refine L.bind (hall L.registerObject _) fun t _ _ _ => ?_
  refine L.bind (L.declareFlags _) fun u _ _ _ => ?_
  refine L.bind (hall (L.fillObject _ fuel) _) fun x _ _ _ => ?_
  refine L.bind (hall (L.declareValue _ fuel) ds) fun y _ _ _ => ?_
  refine L.bind (L.defineRoutines fuel _ _) fun z _ lib _ => ?_
  exact L.bind (L.ofExcept _) fun _ _ _ _ => L.pure trivial

end LoadLogic

/-- Loading declarations, which a loaded game comes from. -/
theorem load_eq_done {settings : Settings} {fuel : Nat} {nodes : List Node} {g : Game}
    (h : load settings fuel nodes = .done g) :
    ∃ ds library vocabulary,
      loadDeclarations settings fuel ds (.initial settings.random) =
        (.done (library, vocabulary), g.machine) := by
  rw [load] at h
  rcases hds : classify nodes with fault | ds
  · rw [hds] at h
    cases h
  · rw [hds] at h
    refine ⟨ds, ?_⟩
    have hrun : (do
      let ds ← Run.ofExcept (.ok ds)
      loadDeclarations settings fuel ds : Run (Library × Vocabulary)) (.initial settings.random) =
        loadDeclarations settings fuel ds (.initial settings.random) := rfl
    rw [hrun] at h
    generalize loadDeclarations settings fuel ds (.initial settings.random) = ended at h ⊢
    rcases ended with ⟨⟨library, vocabulary⟩ | s | f | _, machine⟩
    · cases h
      exact ⟨library, vocabulary, rfl⟩
    · cases h
    · cases h
    · cases h

end TextAdventure
