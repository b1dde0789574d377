import TextAdventure.Proofs.Game.PreEvaluation
import TextAdventure.Proofs.Source.Spelling
import TextAdventure.Proofs.World.Marks

/-!
Flags that code names.

A flag that is not known cannot be set: the attempt is passed over without a word, and the flag
reads as unset.  So all flags that code names as they stand become known when a game is loaded.  The
operations on flags take a name as an atom, bare or quoted either way, or as a string; loading looks
for bare atoms, references and atoms behind a quote, and misses the other two.

* `Node.flagArg?`, `Node.flagLiteral?` — the argument of an operation that says which flag is meant,
  and the name that it is a literal of;
* `mem_codeFlags` — every name that is looked for is found, wherever its form stands;
* `World.Evolves.contains_flag` — and a flag that is known stays known;
* `eval_setFlag`, `eval_hasFlag` — what the operations do with a literal;
* `load_declares_flags` — a flag that loading finds in code is known for good, and is set by the
  operation that sets it;
* `call_string_flag` — one that is written as a string is neither.
-/

namespace TextAdventure

/-! ### Literal names of flags -/

/-- The argument of an operation on flags that says which flag is meant. -/
def Node.flagArg? : Node → Option Node
  | .form operator args _ => if takesFlag operator then args[1]? else none
  | _ => none

/-- The name that an operation on flags takes a literal for.  The atom `T` is no name. -/
def Node.flagLiteral? : Node → Option String
  | .atom name _ => if sameLetters name "T" then none else some name
  | .marked .quote (.atom name _) _ => some name
  | .marked .quasiquote (.atom name _) _ => some name
  | .literal (.string name) _ => some name
  | _ => none

/-- Where loading looks for a flag it finds the name that the operation takes. -/
theorem flagName?_of_flagLiteral {arg : Node} {name : String} (h : arg.flagLiteral? = some name)
    (hfound : (flagName? arg).isSome = true) : flagName? arg = some name := by
  rw [Node.flagLiteral?.eq_def] at h
  split at h
  · split at h
    · cases h
    · exact h
  · exact h
  · cases hfound
  · cases hfound
  · cases h

/-! ### Flags in code -/

theorem codeFlags_subset_codeFlagsAll {node : Node} {nodes : List Node} (h : node ∈ nodes) :
    codeFlags node ⊆ codeFlagsAll nodes := by
  induction nodes with
  | nil => cases h
  | cons first nodes ih =>
    rw [codeFlagsAll]
    rcases List.mem_cons.mp h with rfl | h
    · exact List.subset_append_left _ _
    · exact List.subset_append_of_subset_right _ (ih h)

/-- The flags that the parts of a node name are among those that it names. -/
theorem codeFlags_children {node child : Node} (h : child ∈ node.children) :
    codeFlags child ⊆ codeFlags node := by
  cases node with
  | form operator args span =>
    rw [codeFlags]
    exact List.subset_append_of_subset_right _ (codeFlags_subset_codeFlagsAll h)
  | list items span =>
    rw [codeFlags]
    exact codeFlags_subset_codeFlagsAll h
  | marked marker body span =>
    rw [List.mem_singleton.mp h, codeFlags]
    exact List.Subset.refl _
  | empty span => cases h
  | atom name span => cases h
  | reference sigil name span => cases h
  | literal value span => cases h

theorem codeFlags_subset_of_within {nodes : List Node} {node : Node} (h : Node.Within nodes node) :
    codeFlags node ⊆ codeFlagsAll nodes := by
  induction h with
  | top hmem => exact codeFlags_subset_codeFlagsAll hmem
  | child _ hchild ih => exact List.Subset.trans (codeFlags_children hchild) ih

/-- The flag of a form is found wherever the form stands. -/
theorem mem_codeFlags {nodes : List Node} {form arg : Node} {name : String}
    (hform : Node.Within nodes form) (harg : form.flagArg? = some arg)
    (hname : flagName? arg = some name) : name ∈ codeFlagsAll nodes := by
  refine codeFlags_subset_of_within hform ?_
  cases form with
  | form operator args span =>
    rw [Node.flagArg?] at harg
    split at harg
    · rename_i htakes
      rw [codeFlags, if_pos htakes, harg, Option.bind_some, hname]
      exact List.mem_cons_self
    · cases harg
  | _ => cases harg

theorem takesFlag_eq_false {operator : String} {kind : DeclarationKind}
    (h : DeclarationKind.ofName? (canonical operator) = some kind) :
    takesFlag operator = false := by
  have hname : kind.name = canonical operator := by
    have := List.find?_some h
    simpa using this
  rw [takesFlag, ← hname]
  cases kind <;> decide

theorem declaration?_of_isAdmissible {operator : String} {args : List Node} {span : Span}
    (h : (Node.form operator args span).isAdmissible = true) :
    ∃ kind, DeclarationKind.ofName? (canonical operator) = some kind ∧
      (Node.form operator args span).declaration? = some ⟨kind, args⟩ := by
  have hdeclares : (DeclarationKind.ofName? (canonical operator)).isSome = true := by
    simpa [Node.isAdmissible, Node.isRemark, Node.declaration?] using h
  obtain ⟨kind, hkind⟩ := Option.isSome_iff_exists.mp hdeclares
  exact ⟨kind, hkind, by rw [Node.declaration?, hkind, Option.map_some]⟩

/-- What stands within a source is at its top level or in one of its declarations. -/
theorem exists_declaration_of_within {nodes : List Node} {node : Node}
    (hall : nodes.all Node.isAdmissible = true) (h : Node.Within nodes node) :
    node ∈ nodes ∨ ∃ d ∈ nodes.filterMap Node.declaration?, Node.Within d.args node := by
  induction h with
  | top hmem => exact .inl hmem
  | @child parent part _ hchild ih =>
    obtain hmem | ⟨d, hd, hin⟩ := ih
    · refine .inr ?_
      have hadmissible := List.all_eq_true.mp hall parent hmem
      cases parent with
      | form operator args span =>
        obtain ⟨kind, -, hd⟩ := declaration?_of_isAdmissible hadmissible
        exact ⟨_, List.mem_filterMap.mpr ⟨_, hmem, hd⟩, .top hchild⟩
      | list items span => cases hadmissible
      | marked marker body span => cases hadmissible
      | empty span => cases hchild
      | atom name span => cases hchild
      | reference sigil name span => cases hchild
      | literal value span => cases hchild
    · exact .inr ⟨d, hd, .child hin hchild⟩

/-- Every flag that is found anywhere in the source is among those that become known. -/
theorem mem_declaredFlags_of_within {nodes : List Node} {form arg : Node} {name : String}
    (hall : nodes.all Node.isAdmissible = true) (hform : Node.Within nodes form)
    (harg : form.flagArg? = some arg) (hname : flagName? arg = some name) :
    name ∈ declaredFlags (nodes.filterMap Node.declaration?) := by
  obtain hmem | ⟨d, hd, hin⟩ := exists_declaration_of_within hall hform
  · -- a declaration is no operation on flags
    exfalso
    cases form with
    | form operator args span =>
      obtain ⟨kind, hkind, -⟩ := declaration?_of_isAdmissible (List.all_eq_true.mp hall _ hmem)
      rw [Node.flagArg?, takesFlag_eq_false hkind] at harg
      cases harg
    | _ => cases harg
  · rw [declaredFlags]
    exact List.mem_flatMap.mpr ⟨d, hd, mem_codeFlags hin harg hname⟩

/-! ### Known flags -/

theorem World.Evolves.prefix_flags {w w' : World} (h : w.Evolves w') :
    w.flags.names <+: w'.flags.names := by
  induction h with
  | refl => exact List.prefix_rfl
  | tail _ hchange ih => exact ih.trans hchange.prefix_flags

/-- A flag that is known stays known. -/
theorem World.Evolves.contains_flag {w w' : World} (h : w.Evolves w') {name : String}
    (hname : w.flags.contains name = true) : w'.flags.contains name = true := by
  rw [FlagVocabulary.contains_iff_mem] at hname ⊢
  exact h.prefix_flags.subset hname

theorem introduce_declares {ds : List Declaration} {m m' : Machine}
    (h : introduce ds m = (.done (), m')) {name : String} (hname : name ∈ declaredFlags ds) :
    m'.world.flags.contains name = true := by
  obtain ⟨_, m₁, -, hend⟩ := Run.bind_eq_done h
  cases hend
  obtain ⟨-, -, -, hnames⟩ := World.declareFlags_spec m₁.world (declaredFlags ds)
  rw [FlagVocabulary.contains_iff_mem]
  exact (hnames _).mpr (.inr (List.mem_map_of_mem hname))

theorem lastPhase_evolves (settings : Settings) (fuel : Nat) (ds : List Declaration) :
    Run.Evolves (complete settings fuel ds) := by
  refine .bind (declareValues_evolves _ fuel ds) fun _ => ?_
  refine .bind (defineRoutines_evolves _ fuel _) fun lib => ?_
  refine .bind (fun m => ?_) fun _ => .pure _
  rcases declareVocabulary .empty ds with fault | vocabulary
  · exact .refl m
  · exact .refl m

/-- A loaded game knows the flags that its source names. -/
theorem load_declares {settings : Settings} {fuel : Nat} {nodes : List Node} {g : Game}
    (hload : load settings fuel nodes = .done g) {name : String}
    (hname : name ∈ declaredFlags (nodes.filterMap Node.declaration?)) :
    g.machine.world.flags.contains name = true := by
  obtain ⟨ds, vocabulary, hds, hrun⟩ := exists_of_load hload
  obtain ⟨-, hclassify⟩ | ⟨-, fault, hclassify⟩ := classify_cases nodes
  · rw [hclassify] at hds
    cases hds
    rw [loadDeclarations_phases] at hrun
    obtain ⟨_, m₁, hintroduce, hrun₁⟩ := Run.bind_eq_done hrun
    obtain ⟨_, m₂, hfurnish, hcomplete⟩ := Run.bind_eq_done hrun₁
    have hsecond := furnish_evolves settings fuel (nodes.filterMap Node.declaration?) m₁
    have hthird := lastPhase_evolves settings fuel (nodes.filterMap Node.declaration?) m₂
    rw [hfurnish] at hsecond
    rw [hcomplete] at hthird
    exact (hsecond.trans hthird).world.contains_flag (introduce_declares hintroduce hname)
  · rw [hclassify] at hds
    cases hds

theorem admissible_of_load {settings : Settings} {fuel : Nat} {nodes : List Node} {g : Game}
    (hload : load settings fuel nodes = .done g) : nodes.all Node.isAdmissible = true := by
  obtain ⟨ds, -, hds, -⟩ := exists_of_load hload
  obtain ⟨hall, -⟩ | ⟨-, fault, hclassify⟩ := classify_cases nodes
  · exact hall
  · rw [hclassify] at hds
    cases hds

/-! ### Setting a flag and asking for it -/

theorem World.setFlag_of_has {w : World} {o : ObjectId} (ho : w.Has o) (name : String) :
    ∃ w', w.setFlag o name = .ok w' := by
  obtain ⟨object, hobject⟩ := existing_of_has ho
  rw [setFlag, changeFlag, hobject]
  simp only [bind, Except.bind]
  split
  · exact ⟨_, rfl⟩
  · exact ⟨_, rfl⟩

/-- A known flag that has been set is there. -/
theorem World.flag_of_setFlag {w w' : World} {o : ObjectId} {name : String}
    (h : w.setFlag o name = .ok w') (hknown : w.flags.contains name = true) :
    w'.flag o name = true := by
  have hinsert : ∀ (s : FlagSet) (bit other : Nat), (s.insert bit).contains other =
      if bit = other then true else s.contains other := by
    intro s bit other
    rw [FlagSet.contains_insert]
    split <;> simp [*]
  rw [World.flag_changeFlag hinsert h, if_pos ⟨rfl, rfl, hknown⟩]

theorem World.flag_canonical (w : World) (o : ObjectId) (name : String) :
    w.flag o (canonical name) = w.flag o name := by
  rw [flag, flag, FlagVocabulary.bit?, FlagVocabulary.bit?, canonical_canonical]

theorem FlagVocabulary.contains_canonical (v : FlagVocabulary) (name : String) :
    v.contains (canonical name) = v.contains name := by
  rw [contains, contains, bit?, bit?, canonical_canonical]

/-- A literal of a name is taken for that name, and nothing else happens. -/
theorem nameArg_of_flagLiteral (lib : Library) (fuel : Nat) (operation : String) {arg : Node}
    {name : String} (h : arg.flagLiteral? = some name) (m : Machine) :
    nameArg (eval lib (fuel + 1)) operation arg m = (.done (canonical name), m) := by
  have hatom (heval : eval lib (fuel + 1) arg m = (.done (.ofName name), m)) :
      nameArg (eval lib (fuel + 1)) operation arg m = (.done (canonical name), m) := by
    rw [nameArg, Run.bind_of_done heval, Value.ofName, expectName, canonical_canonical]
    rfl
  rw [Node.flagLiteral?.eq_def] at h
  split at h
  · split at h
    · cases h
    · rename_i hname
      cases h
      refine hatom ?_
      rw [eval, evalStep, atomValue, if_neg hname]
      rfl
  · cases h
    exact hatom rfl
  · cases h
    exact hatom rfl
  · cases h
    rfl
  · cases h

section Operations

variable {lib : Library} {fuel : Nat} {operator : String} {target arg : Node} {more : List Node}
  {span : Span} {m m₁ : Machine} {o : ObjectId} {name : String}

theorem objectArg_of_eval (operation : String)
    (htarget : eval lib (fuel + 1) target m = (.done (.object o), m₁)) :
    objectArg (eval lib (fuel + 1)) operation target m = (.done o, m₁) := by
  rw [objectArg, Run.bind_of_done htarget]
  rfl

/-- Setting a flag that is named by a literal. -/
theorem eval_setFlag (hlookup : lib.operations.lookup? operator = some (.object .setFlag))
    (htarget : eval lib (fuel + 1) target m = (.done (.object o), m₁))
    (harg : arg.flagLiteral? = some name) {w : World}
    (hset : m₁.world.setFlag o (canonical name) = .ok w) :
    eval lib (fuel + 2) (.form operator (target :: arg :: more) span) m =
      (.done (.bool true), { m₁ with world := w }) := by
  have hchange : Run.changeWorld (·.setFlag o (canonical name)) m₁ =
      (.done (), { m₁ with world := w }) := by
    rw [Run.changeWorld, hset]
  have hlength : ¬ (target :: arg :: more).length < (Operation.object .setFlag).minimum := by
    simp [Operation.minimum]
  rw [eval, evalStep, dispatch, hlookup]
  dsimp only
  rw [if_neg hlength, Operation.perform, ObjectOp.perform,
    Run.bind_of_done (objectArg_of_eval "FSET" htarget),
    Run.bind_of_done (nameArg_of_flagLiteral lib fuel "FSET" harg m₁), Run.bind_of_done hchange]
  rfl

/-- Asking for a flag that is named by a literal. -/
theorem eval_hasFlag (hlookup : lib.operations.lookup? operator = some (.object .hasFlag))
    (htarget : eval lib (fuel + 1) target m = (.done (.object o), m₁))
    (harg : arg.flagLiteral? = some name) :
    eval lib (fuel + 2) (.form operator (target :: arg :: more) span) m =
      (.done (.bool (m₁.world.flag o name)), m₁) := by
  have hlength : ¬ (target :: arg :: more).length < (Operation.object .hasFlag).minimum := by
    simp [Operation.minimum]
  rw [eval, evalStep, dispatch, hlookup]
  dsimp only
  rw [if_neg hlength, Operation.perform, ObjectOp.perform,
    Run.bind_of_done (objectArg_of_eval "FSET?" htarget),
    Run.bind_of_done (nameArg_of_flagLiteral lib fuel "FSET?" harg m₁), ← World.flag_canonical]
  rfl

end Operations

/-! ### The library of a loaded game -/

theorem operations_defineRoutines {fuel : Nat} {lib lib' : Library} {ds : List Declaration}
    {m m' : Machine} (h : defineRoutines fuel lib ds m = (.done lib', m')) :
    lib'.operations = lib.operations := by
  induction ds generalizing lib m with
  | nil =>
    cases h
    rfl
  | cons d ds ih =>
    obtain ⟨built, m₁, -, hrest⟩ := Run.bind_eq_done h
    have hoperations := ih hrest
    exact hoperations

/-- A loaded game has the operations of the language. -/
theorem operations_of_load {settings : Settings} {fuel : Nat} {nodes : List Node} {g : Game}
    (hload : load settings fuel nodes = .done g) : g.library.operations = .standard := by
  obtain ⟨m, -, hdefine⟩ := exists_defineRoutines_of_load hload
  exact operations_defineRoutines hdefine

/-! ### Flags that code names -/

/-- On whatever object `FSET` is run with a literal, it sets the flag of that name, and `FSET?` with
the same literal comes out true as long as the flag is left alone. -/
def Library.SetsFlag (lib : Library) (m : Machine) (arg : Node) (name : String) : Prop :=
  ∀ (operator : String) (target : Node) (more : List Node) (span : Span) (fuel : Nat)
    (o : ObjectId) (m₁ : Machine), canonical operator = "FSET" →
    eval lib (fuel + 1) target m = (.done (.object o), m₁) → m₁.world.Has o →
    ∃ m₂, eval lib (fuel + 2) (.form operator (target :: arg :: more) span) m =
        (.done (.bool true), m₂) ∧
      m₂.world.flag o name = true ∧
      ∀ (operator : String) (target : Node) (more : List Node) (span : Span) (fuel : Nat)
        (m₃ : Machine), canonical operator = "FSET?" →
        eval lib (fuel + 1) target m₂ = (.done (.object o), m₃) →
        m₃.world.flag o name = m₂.world.flag o name →
        eval lib (fuel + 2) (.form operator (target :: arg :: more) span) m₂ =
          (.done (.bool true), m₃)

/-- A known flag can be set with any literal of its name. -/
theorem setsFlag_of_contains {lib : Library} (hlib : lib.operations = .standard) {m : Machine}
    {arg : Node} {name : String} (hliteral : arg.flagLiteral? = some name)
    (hknown : m.world.flags.contains name = true) : lib.SetsFlag m arg name := by
  have hlookup : ∀ operator operation, canonical operator = canonical operation →
      lib.operations.lookup? operator = Registry.standard.lookup? operation := by
    intro operator operation hsame
    rw [hlib, Registry.lookup?, hsame, ← Registry.lookup?]
  intro operator target more span fuel o m₁ hoperator htarget ho
  -- the flag is still known when the object has been found
  have hfirst := (eval_evolves lib (fuel + 1) target m).world
  rw [htarget] at hfirst
  have hstill : m₁.world.flags.contains (canonical name) = true := by
    rw [FlagVocabulary.contains_canonical]
    exact hfirst.contains_flag hknown
  obtain ⟨w, hset⟩ := World.setFlag_of_has ho (canonical name)
  have hflag : w.flag o name = true := by
    rw [← World.flag_canonical]
    exact World.flag_of_setFlag hset hstill
  refine ⟨{ m₁ with world := w },
    eval_setFlag (hlookup operator "FSET" hoperator) htarget hliteral hset, hflag, ?_⟩
  intro operator' target' more' span' fuel' m₃ hoperator' htarget' hkept
  rw [eval_hasFlag (hlookup operator' "FSET?" hoperator') htarget' hliteral, hkept, hflag]

/-- Where an operation on flags has a literal for its flag, anywhere in the source of a loaded game,
and the literal is an atom, bare or behind a quote, the flag is known to the game, and however the
game has gone on since, it can be set with this literal. -/
theorem load_declares_flags {settings : Settings} {fuel : Nat} {nodes : List Node} {g : Game}
    (hload : load settings fuel nodes = .done g) {form arg : Node} (hform : Node.Within nodes form)
    (harg : form.flagArg? = some arg) {name : String} (hliteral : arg.flagLiteral? = some name)
    (hfound : (flagName? arg).isSome = true) :
    g.machine.world.flags.contains name = true ∧
      ∀ m : Machine, g.machine.world.Evolves m.world → g.library.SetsFlag m arg name := by
  have hknown := load_declares hload (mem_declaredFlags_of_within (admissible_of_load hload) hform
    harg (flagName?_of_flagLiteral hliteral hfound))
  exact ⟨hknown, fun m hevolves =>
    setsFlag_of_contains (operations_of_load hload) hliteral (hevolves.contains_flag hknown)⟩

/-- A lamp, and a routine that sets a flag on it and asks for the flag. -/
def glowing (flag : Node) : List Node :=
  [.form "OBJECT" [.atom "LAMP" default] default,
    .form "ROUTINE" [.atom "LIGHT" default, .list [] default,
      .form "FSET" [.reference .comma "LAMP" default, flag] default,
      .form "FSET?" [.reference .comma "LAMP" default, flag] default] default]

/-- A flag behind a quote is known from the start, and is set on the lamp. -/
theorem load_declares_flags_glow :
    let glow : Node := .marked .quote (.atom "GLOW" default) default
    let lamp : Node := .reference .comma "LAMP" default
    ∃ g : Game, load .standard 9 (glowing glow) = .done g ∧
      g.machine.world.flags.contains "GLOW" = true ∧
      ∃ m, eval g.library 3 (.form "FSET" [lamp, glow] default) g.machine =
          (.done (.bool true), m) ∧ m.world.flag ⟨0⟩ "GLOW" = true := by
  intro glow lamp
  have hpasses : (load .standard 9 (glowing glow)).passes (fun g =>
      decide (0 < g.machine.world.objects.length) &&
      (resolve g.library g.machine.world g.machine.frame "LAMP").toOption.any
        (·.object? == some ⟨0⟩)) = true := by
    decide +kernel
  obtain ⟨g, hload, htest⟩ := Outcome.exists_of_passes hpasses
  obtain ⟨hhas, hresolve⟩ := Bool.and_eq_true_iff.mp htest
  have hlive : 0 < g.machine.world.objects.length := of_decide_eq_true hhas
  have hlamp : eval g.library 2 lamp g.machine = (.done (.object ⟨0⟩), g.machine) := by
    refine eval_reference ?_ 1 .comma default
    rcases hvalue : resolve g.library g.machine.world g.machine.frame "LAMP" with fault | value
    · rw [hvalue] at hresolve
      cases hresolve
    · rw [hvalue] at hresolve
      rw [Value.eq_object_of_object? (eq_of_beq hresolve)]
  have hroutine : Node.Within (glowing glow) (glowing glow)[1] :=
    .top (List.mem_cons_of_mem _ List.mem_cons_self)
  have hform : Node.Within (glowing glow) (.form "FSET" [lamp, glow] default) :=
    .child hroutine (List.mem_cons_of_mem _ (List.mem_cons_of_mem _ List.mem_cons_self))
  obtain ⟨hknown, hsets⟩ := load_declares_flags hload hform rfl rfl rfl
  obtain ⟨m, heval, hflag, -⟩ := hsets g.machine (.refl _) "FSET" lamp [] default 1 ⟨0⟩ g.machine
    rfl hlamp hlive
  exact ⟨g, hload, hknown, m, heval, hflag⟩

/-- The truth value that a value is. -/
def Value.bool? : Value → Option Bool
  | .bool b => some b
  | _ => none

/-- A flag that is written as a string is not known, so setting it does nothing. -/
theorem call_string_flag :
    ∃ g : Game, load .standard 9 (glowing (.literal (.string "GLOW") default)) = .done g ∧
      g.machine.world.flags.contains "GLOW" = false ∧
      (call g.library 9 "LIGHT" [] g.machine).1 = .done (.bool false) := by
  have hpasses : (load .standard 9 (glowing (.literal (.string "GLOW") default))).passes (fun g =>
      !g.machine.world.flags.contains "GLOW" &&
      (call g.library 9 "LIGHT" [] g.machine).1.passes (·.bool? == some false)) = true := by
    decide +kernel
  obtain ⟨g, hload, htest⟩ := Outcome.exists_of_passes hpasses
  obtain ⟨hunknown, hcall⟩ := Bool.and_eq_true_iff.mp htest
  obtain ⟨value, hvalue, hfalse⟩ := Outcome.exists_of_passes hcall
  refine ⟨g, hload, by simpa using hunknown, ?_⟩
  rw [hvalue]
  cases value with
  | bool b =>
    cases eq_of_beq hfalse
    rfl
  | _ => cases eq_of_beq hfalse

end TextAdventure
