import TextAdventure.Proofs.Program.Pairing

/-!
Two runs side by side.

Two like programs, started in worlds between which no program can tell, end alike: with the same
value, signal or failure, the same text printed, and again in such worlds.

* `Attempt.Matches`, `Outcome.Matches`, `Run.Matches` — results, outcomes and runs that agree up
  to a relation of values and one of worlds;
* `World.Bisimulation` — a relation of worlds that no single action of a program can break;
* `eval_matches` — then no program can, whatever its routines;
* `eval_similar` — programs that differ in letter case and in places only do the same.

Design notes.  The machines of the two runs differ in their worlds only, so a relation of worlds is
all there is to choose.  Equality is one; the spelling of names is read through their canonical
form alone, and with equality nothing else needs to be said about it.
-/

namespace TextAdventure

/-! ### Results and outcomes that match -/

/-- Two attempts succeed with related values or fail for one reason. -/
inductive Attempt.Matches {α β : Type} (V : α → β → Prop) : Except Fault α → Except Fault β → Prop
  | ok {a : α} {b : β} (h : V a b) : Matches V (.ok a) (.ok b)
  | error (fault : Fault) : Matches V (.error fault) (.error fault)

namespace Attempt.Matches

variable {α β γ δ : Type} {V : α → β → Prop} {U : γ → δ → Prop}

theorem refl (e : Except Fault α) : Matches Eq e e := by
  cases e with
  | ok a => exact .ok rfl
  | error fault => exact .error fault

theorem bind {e : Except Fault α} {e' : Except Fault β} {next : α → Except Fault γ}
    {next' : β → Except Fault δ} (h : Matches V e e')
    (hnext : ∀ a b, V a b → Matches U (next a) (next' b)) :
    Matches U (e >>= next) (e' >>= next') := by
  obtain hvalue | fault := h
  · exact hnext _ _ hvalue
  · exact .error fault

end Attempt.Matches

/-- Two outcomes are of one kind: related values, one signal, one failure, or the same is lacking
for an answer. -/
inductive Outcome.Matches {α β : Type} (V : α → β → Prop) : Outcome α → Outcome β → Prop
  | done {a : α} {b : β} (h : V a b) : Matches V (.done a) (.done b)
  | signal (s : Signal) : Matches V (.signal s) (.signal s)
  | failed (f : Failure) : Matches V (.failed f) (.failed f)
  | exhausted (what : Shortage) : Matches V (.exhausted what) (.exhausted what)

theorem Outcome.Matches.refl {α : Type} (o : Outcome α) : Outcome.Matches Eq o o := by
  cases o with
  | done a => exact .done rfl
  | signal s => exact .signal s
  | failed f => exact .failed f
  | exhausted what => exact .exhausted what

theorem Outcome.Matches.eq {α : Type} {o o' : Outcome α} (h : Outcome.Matches Eq o o') : o = o' := by
  cases h with
  | done h => rw [h]
  | _ => rfl

/-- Two machines differ in their worlds only, and those are related. -/
def Machine.Matches (R : World → World → Prop) (m m' : Machine) : Prop :=
  ∃ w', R m.world w' ∧ m' = { m with world := w' }

/-- From matching machines two actions come to matching outcomes and leave matching machines. -/
def Run.Matches {α β : Type} (R : World → World → Prop) (V : α → β → Prop) (act : Run α)
    (act' : Run β) : Prop :=
  ∀ m m', m.Matches R m' →
    Outcome.Matches V (act m).1 (act' m').1 ∧ (act m).2.Matches R (act' m').2

/-- A relation between worlds that programs cannot tell apart: they read the same, and every change
that a program can make either is refused in both for one reason or leads to related worlds. -/
structure World.Bisimulation (R : World → World → Prop) : Prop where
  looks {w w' : World} (h : R w w') : w.LooksLike w'
  edit {f : World → Except Fault World} (hf : World.Edit (fun _ => True) f) {w w' : World}
    (h : R w w') : Attempt.Matches R (f w) (f w')
  setGlobal {w w' : World} (h : R w w') (name : String) (value : Value) :
    R (w.setGlobal name value) (w'.setGlobal name value)
  newTable {w w' : World} (h : R w w') (cells : List Value) :
    Attempt.Matches (fun made made' => R made.1 made'.1 ∧ made.2 = made'.2) (w.newTable cells)
      (w'.newTable cells)

namespace Run.Matches

variable {R : World → World → Prop} {α β γ δ : Type} {V : α → β → Prop} {U : γ → δ → Prop}

/-! ### Rules -/

theorem pure {a : α} {b : β} (h : V a b) :
    Run.Matches R V (Pure.pure a : Run α) (Pure.pure b : Run β) :=
  fun _ _ hm => ⟨.done h, hm⟩

theorem fail (fault : Fault) : Run.Matches R V (Run.fail fault) (Run.fail fault) :=
  fun _ _ hm => ⟨.failed _, hm⟩

theorem bind {act : Run α} {act' : Run β} {next : α → Run γ} {next' : β → Run δ}
    (hact : Run.Matches R V act act') (hnext : ∀ a b, V a b → Run.Matches R U (next a) (next' b)) :
    Run.Matches R U (act >>= next) (act' >>= next') := by
  intro m m' hm
  have hfirst := hact m m' hm
  obtain ⟨ended, m₁, hrun⟩ : ∃ ended m₁, act m = (ended, m₁) := ⟨_, _, rfl⟩
  obtain ⟨ended', m₁', hrun'⟩ : ∃ ended m₁, act' m' = (ended, m₁) := ⟨_, _, rfl⟩
  rw [hrun, hrun'] at hfirst
  obtain ⟨hout, hmachine⟩ := hfirst
  obtain hvalue | s | f | what := hout
  · rw [bind_of_done hrun, bind_of_done hrun']
    exact hnext _ _ hvalue m₁ m₁' hmachine
  · rw [bind_of_signal hrun, bind_of_signal hrun']
    exact ⟨.signal s, hmachine⟩
  · rw [bind_of_failed hrun, bind_of_failed hrun']
    exact ⟨.failed f, hmachine⟩
  · rw [bind_of_exhausted hrun, bind_of_exhausted hrun']
    exact ⟨.exhausted what, hmachine⟩

/-- One thing after another, where both sides go on with the same value. -/
theorem andThen {act act' : Run α} {next : α → Run γ} {next' : α → Run δ}
    (hact : Run.Matches R Eq act act') (hnext : ∀ a, Run.Matches R U (next a) (next' a)) :
    Run.Matches R U (act >>= next) (act' >>= next') :=
  bind hact fun a _ h => h ▸ hnext a

theorem ofExcept {e : Except Fault α} {e' : Except Fault β} (h : Attempt.Matches V e e') :
    Run.Matches R V (Run.ofExcept e) (Run.ofExcept e') := by
  obtain hvalue | fault := h
  · exact pure hvalue
  · exact fail fault

theorem read {f : Machine → α} {g : Machine → β}
    (h : ∀ m w, R m.world w → V (f m) (g { m with world := w })) :
    Run.Matches R V (Run.read f) (Run.read g) := by
  rintro m _ ⟨w, hw, rfl⟩
  exact ⟨.done (h m w hw), w, hw, rfl⟩

/-- What both machines do with themselves, whatever their worlds. -/
theorem modify {f : Machine → Machine} (hworld : ∀ m, (f m).world = m.world)
    (hf : ∀ m w, f { m with world := w } = { f m with world := w }) :
    Run.Matches R Eq (Run.modify f) (Run.modify f) := by
  rintro m _ ⟨w, hw, rfl⟩
  refine ⟨.done rfl, w, ?_, hf m w⟩
  show R (f m).world w
  rw [hworld]
  exact hw

theorem modifyFrame (f : Frame → Frame) :
    Run.Matches R Eq (Run.modifyFrame f) (Run.modifyFrame f) :=
  modify (fun _ => rfl) fun _ _ => rfl

theorem modifyWorld {f g : World → World} (h : ∀ w w', R w w' → R (f w) (g w')) :
    Run.Matches R Eq (Run.modifyWorld f) (Run.modifyWorld g) := by
  rintro m _ ⟨w, hw, rfl⟩
  exact ⟨.done rfl, g w, h _ _ hw, rfl⟩

theorem changeWorld {f g : World → Except Fault World}
    (h : ∀ w w', R w w' → Attempt.Matches R (f w) (g w')) :
    Run.Matches R Eq (Run.changeWorld f) (Run.changeWorld g) := by
  rintro m _ ⟨w, hw, rfl⟩
  have hboth := h m.world w hw
  simp only [Run.changeWorld]
  generalize f m.world = found at hboth ⊢
  generalize g w = found' at hboth ⊢
  obtain hvalue | fault := hboth
  · exact ⟨.done rfl, _, hvalue, rfl⟩
  · exact ⟨.failed _, w, hw, rfl⟩

theorem random (limit : Int64) : Run.Matches R Eq (Run.random limit) (Run.random limit) := by
  rintro m _ ⟨w, hw, rfl⟩
  exact ⟨.done rfl, w, hw, rfl⟩

theorem makeTable (hR : World.Bisimulation R) (cells : List Value) :
    Run.Matches R Eq (makeTable cells) (makeTable cells) := by
  rintro m _ ⟨w, hw, rfl⟩
  have hboth := hR.newTable hw cells
  simp only [TextAdventure.makeTable]
  generalize m.world.newTable cells = made at hboth ⊢
  generalize w.newTable cells = made' at hboth ⊢
  obtain hmade | fault := hboth
  · exact ⟨.done (congrArg Value.table hmade.2), _, hmade.1, rfl⟩
  · exact ⟨.failed _, w, hw, rfl⟩

/-! ### Boundaries -/

section Boundaries

variable {act act' : Run Value} (hact : Run.Matches R Eq act act')
include hact

theorem collapse : Run.Matches R Eq act.collapse act'.collapse := by
  intro m m' hm
  obtain ⟨hout, hmachine⟩ := hact m m' hm
  rw [Run.fst_collapse, Run.fst_collapse, Run.snd_collapse, Run.snd_collapse, hout.eq]
  exact ⟨.refl _, hmachine⟩

theorem withinBlock : Run.Matches R Eq act.withinBlock act'.withinBlock := by
  rintro m _ ⟨w, hw, rfl⟩
  -- inside the block both machines have the same new scope
  have hinside := hact { m with frame := m.frame.openBlock }
    { m with world := w, frame := m.frame.openBlock } ⟨w, hw, rfl⟩
  obtain ⟨hout, w₁, hw₁, hmachine⟩ := hinside
  rw [Run.fst_withinBlock, Run.fst_withinBlock, Run.snd_withinBlock, Run.snd_withinBlock, hout.eq]
  refine ⟨.refl _, w₁, hw₁, ?_⟩
  rw [hmachine]

theorem withinCall (name : String) :
    Run.Matches R Eq (act.withinCall name) (act'.withinCall name) := by
  rintro m _ ⟨w, hw, rfl⟩
  have hinside := hact { m with frame := .forRoutine name, depth := m.depth + 1 }
    { m with world := w, frame := .forRoutine name, depth := m.depth + 1 } ⟨w, hw, rfl⟩
  obtain ⟨hout, w₁, hw₁, hmachine⟩ := hinside
  rw [Run.fst_withinCall, Run.fst_withinCall, Run.snd_withinCall, Run.snd_withinCall, hout.eq]
  refine ⟨.refl _, w₁, hw₁, ?_⟩
  rw [hmachine]

theorem atTopLevel : Run.Matches R Eq (atTopLevel act) (atTopLevel act') := by
  rintro m _ ⟨w, hw, rfl⟩
  have hinside := hact { m with frame := .topLevel } { m with world := w, frame := .topLevel }
    ⟨w, hw, rfl⟩
  obtain ⟨hout, w₁, hw₁, hmachine⟩ := hinside
  refine ⟨hout, w₁, hw₁, ?_⟩
  show { (act' { m with world := w, frame := .topLevel }).2 with frame := m.frame } = _
  rw [hmachine]
  rfl

end Boundaries

end Run.Matches

/-! ### Calls -/

section

variable {R : World → World → Prop} {names : String → String → Prop} {places : Span → Span → Prop}
  {ev ev' : Node → Run Value}
  (hev : ∀ {node node' : Node}, node.Like names places node' →
    Run.Matches R Eq (ev node) (ev' node'))
include hev

theorem bindDefault_matches {param param' : Parameter} (h : param.Like names places param') :
    Run.Matches R Eq (bindDefault ev param) (bindDefault ev' param') := by
  have hdefault := h.default
  simp only [bindDefault, h.name]
  generalize param.default = found at hdefault ⊢
  generalize param'.default = found' at hdefault ⊢
  obtain hnode | _ := hdefault
  · exact .andThen (hev hnode).collapse fun value => .modifyFrame _
  · exact .modifyFrame _

theorem bindParams_matches {params params' : List Parameter}
    (h : List.Forall₂ (Parameter.Like names places) params params') (args : List Value) :
    Run.Matches R Eq (bindParams ev params args) (bindParams ev' params' args) := by
  induction h generalizing args with
  | nil => exact .pure rfl
  | cons hparam _ ih =>
    obtain _ | ⟨value, values⟩ := args
    · exact .andThen (bindDefault_matches hev hparam) fun _ => ih []
    · simp only [bindParams, hparam.name]
      exact .andThen (.modifyFrame _) fun _ => ih values

theorem evalLast_matches {nodes nodes' : List Node} (h : Node.AllLike names places nodes nodes')
    (last : Value) : Run.Matches R Eq (evalLast ev last nodes) (evalLast ev' last nodes') := by
  induction h generalizing last with
  | nil => exact .pure rfl
  | cons hnode _ ih => exact .andThen (hev hnode) fun value => ih value

theorem runRoutine_matches {routine routine' : Routine} (h : routine.Like names places routine')
    (args : List Value) :
    Run.Matches R Eq (runRoutine ev routine args) (runRoutine ev' routine' args) := by
  refine .andThen (bindParams_matches hev h.params args) fun _ => ?_
  refine .andThen (bindParams_matches hev h.locals []) fun _ => ?_
  exact (evalLast_matches hev h.body (.bool false)).collapse

variable {lib lib' : Library} (hlib : lib.Like names places lib')
include hlib

theorem callRoutine_matches (name : String) (args : List Value) :
    Run.Matches R Eq (callRoutine lib ev name args) (callRoutine lib' ev' name args) := by
  have hfound := hlib.routines (canonical name)
  simp only [callRoutine, RoutineTable.lookup?, ← hlib.maxDepth]
  generalize lib.routines.get? (canonical name) = found at hfound ⊢
  generalize lib'.routines.get? (canonical name) = found' at hfound ⊢
  obtain @⟨routine, routine', hroutine⟩ | _ := hfound
  · rintro m _ ⟨w, hw, rfl⟩
    dsimp only
    rw [hroutine.name]
    split
    · exact ⟨.failed _, w, hw, rfl⟩
    · exact (runRoutine_matches hev hroutine args).withinCall _ m _ ⟨w, hw, rfl⟩
  · exact .fail _

theorem callValue_matches (callee : Value) (args : List Value) :
    Run.Matches R Eq (callValue lib ev callee args) (callValue lib' ev' callee args) := by
  cases callee with
  | routine name => exact callRoutine_matches hev hlib name args
  | atom name => exact callRoutine_matches hev hlib name args
  | string name => exact callRoutine_matches hev hlib name args
  | _ => exact .fail _

end

/-! ### Evaluation -/

/-- The statement that two schemes match once the evaluation of nodes is given. -/
def matchPairing (R : World → World → Prop) (ev ev' : Node → Run Value) : Pairing where
  Holds V F G := Run.Matches R V (F ev) (G ev')

section

variable {R : World → World → Prop} {names : String → String → Prop} {places : Span → Span → Prop}
  {lib lib' : Library}

theorem match_logic (hR : World.Bisimulation R)
    (hnames : ∀ {s s' : String}, names s s' → canonical s = canonical s')
    (hlib : lib.Like names places lib') {ev ev' : Node → Run Value}
    (hev : ∀ {node node' : Node}, node.Like names places node' →
      Run.Matches R Eq (ev node) (ev' node')) :
    PairLogic (matchPairing R ev ev') names places lib lib' where
  canonical := hnames
  library := hlib
  pure h := .pure h
  bind hfirst hnext := .bind hfirst hnext
  fail fault := .fail fault
  raise s _ _ hm := ⟨.signal s, hm⟩
  exhaust what _ _ hm := ⟨.exhausted what, hm⟩
  evaluate h := hev h
  call callee args := callValue_matches hev hlib callee args
  read h := .read fun m w hw => h m w (hR.looks hw)
  print _ := .modify (fun _ => rfl) fun _ _ => rfl
  random limit := .random limit
  quit := .modify (fun _ => rfl) fun _ _ => rfl
  modifyFrame f := .modifyFrame f
  setGlobal name value := .modifyWorld fun _ _ hw => hR.setGlobal hw name value
  makeTable cells := .makeTable hR cells
  changeWorld hf := .changeWorld fun _ _ hw => hR.edit hf hw

/-- Like nodes match, in like libraries and in worlds that programs cannot tell apart. -/
theorem eval_matches (hR : World.Bisimulation R)
    (hnames : ∀ {s s' : String}, names s s' → canonical s = canonical s')
    (hlib : lib.Like names places lib') (fuel : Nat) {node node' : Node}
    (h : node.Like names places node') :
    Run.Matches R Eq (eval lib fuel node) (eval lib' fuel node') := by
  induction fuel generalizing node node' with
  | zero => exact fun _ _ hm => ⟨.exhausted .fuel, hm⟩
  | succ fuel ih =>
    have L := match_logic hR hnames hlib fun h => ih h
    by_cases hblock : lib.IsBlock node
    · cases h with
      | @form operator operator' args args' s s' hoperator hargs _ =>
        obtain ⟨op, hlookup, hop⟩ := hblock
        have hlookup' : lib'.operations.lookup? operator' = some (.control op) := by
          rw [← hlookup]
          simp only [Registry.lookup?, hlib.operations, hnames hoperator]
        rw [eval, eval, evalStep_block hlookup hop, evalStep_block hlookup' hop]
        exact (L.inside op fuel hargs).withinBlock
      | _ => exact absurd hblock id
    · exact L.evalStep h hblock fuel

end

/-! ### Letter case and places -/

/-- Two nodes are the same but for the letter case of names and for places. -/
def Node.Similar : Node → Node → Prop :=
  Node.Like (fun name name' => sameLetters name name' = true) fun _ _ => True

/-- Two libraries differ only in nodes of their routines, and those are similar one by one. -/
def Library.Similar : Library → Library → Prop :=
  Library.Like (fun name name' => sameLetters name name' = true) fun _ _ => True

theorem World.Bisimulation.eq : World.Bisimulation Eq where
  looks h := h ▸ World.LooksLike.refl _
  edit _ _ _ h := h ▸ Attempt.Matches.refl _
  setGlobal h _ _ := by rw [h]
  newTable {w _} h cells := by
    subst h
    rcases w.newTable cells with fault | made
    · exact .error fault
    · exact .ok ⟨rfl, rfl⟩

/-- The language is insensitive to letter case and to places: from one machine, similar nodes come
to the same outcome and leave the same machine behind, also where the routines they call are only
similar. -/
theorem eval_similar {lib lib' : Library} (hlib : lib.Similar lib') {node node' : Node}
    (h : node.Similar node') (fuel : Nat) (m : Machine) :
    eval lib fuel node m = eval lib' fuel node' m := by
  have hmatch := eval_matches World.Bisimulation.eq (fun hs => sameLetters_iff.mp hs) hlib fuel h
  obtain ⟨hout, w, hw, hmachine⟩ := hmatch m m ⟨m.world, rfl, rfl⟩
  refine Prod.ext hout.eq ?_
  rw [hmachine, ← hw]

/-- A library with one routine, which adds one to its argument, and takes the sum of 2 and 3 for it
where none is given.  The spellings of its operators and of its variable, and a place, are open. -/
def spelledLibrary (add leave x : String) (place : Span) : Library :=
  let sum (left right : Node) : Node := .form add [left, right] place
  let increment : Routine :=
    { name := "INCREMENT"
      params := [⟨"N", some (sum (.literal (.int 2) place) (.literal (.int 3) place))⟩]
      locals := []
      body := [.form leave [sum (.reference .dot x place) (.literal (.int 1) place)] place] }
  { Library.standard with routines := .ofList [("INCREMENT", increment)] }

theorem spelledLibrary_similar {add add' leave leave' x x' : String}
    (hadd : sameLetters add add' = true) (hleave : sameLetters leave leave' = true)
    (hx : sameLetters x x' = true) (place place' : Span) :
    (spelledLibrary add leave x place).Similar
      (spelledLibrary add' leave' x' place') where
  operations := rfl
  maxDepth := rfl
  maxCells := rfl
  actorGlobal := rfl
  routines name := by
    by_cases hname : name = "INCREMENT"
    · subst hname
      have hsum {left right left' right' : Node} (hleft : left.Similar left')
          (hright : right.Similar right') : Node.Similar (.form add [left, right] place)
            (.form add' [left', right'] place') :=
        .form hadd (.cons hleft (.cons hright .nil)) trivial
      refine .some ⟨rfl, .cons ⟨rfl, .some ?_⟩ .nil, .nil, .cons (.form hleave ?_ trivial) .nil⟩
      · exact hsum (.literal _ trivial) (.literal _ trivial)
      · exact .cons (hsum (.reference _ hx trivial) (.literal _ trivial)) .nil
    · have hnone (routine : Routine) :
          (NameMap.ofList [("INCREMENT", routine)]).get? name = none := if_neg hname
      rw [spelledLibrary, spelledLibrary, hnone, hnone]
      exact .none

/-- A call in lower case of a routine written in mixed case. -/
theorem eval_similar_call :
    eval (spelledLibrary "ADD" "RETURN" "N" default) 5 (.form "INCREMENT" [] default)
        (.initial .ones) =
      eval (spelledLibrary "add" "Return" "n" ⟨3, 4, 5, 6⟩) 5
        (.form "increment" [] ⟨7, 8, 9, 10⟩) (.initial .ones) ∧
    (eval (spelledLibrary "add" "Return" "n" ⟨3, 4, 5, 6⟩) 5
      (.form "increment" [] ⟨7, 8, 9, 10⟩) (.initial .ones)).1 = .done (.int 6) := by
  constructor
  · refine eval_similar (spelledLibrary_similar ?_ ?_ ?_ _ _) (.form ?_ .nil trivial) 5 _
    · decide
    · decide
    · decide
    · decide
  · rfl

end TextAdventure
