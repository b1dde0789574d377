import TextAdventure.Play.Console
import TextAdventure.Proofs.Game.Loading
import TextAdventure.Proofs.Program.Transition

/-!
The worlds that can come about.

A world comes about from the empty one by changing it, by running programs, by loading a game and
by playing it.  All of these are in the end sequences of single changes, so what every change
keeps holds of every world that can come about.

* `World.Evolves` — a world leads to another by single changes;
* `Machine.Evolves` — so do the worlds of two machines, with as many calls under way;
* `eval_evolves`, `load_evolves`, `command_evolves` — running, loading and playing do nothing else;
* `World.Reachable` — the worlds that can come about;
* `World.Reachable.containment_forest` — in each of them the objects form a forest, and the search
  for an ancestor ends with the right answer.
-/

namespace TextAdventure

open Relation

/-- A world leads to another by single changes. -/
def World.Evolves (w w' : World) : Prop := ReflTransGen World.Change w w'

theorem World.Evolves.refl (w : World) : w.Evolves w := ReflTransGen.refl

theorem World.Evolves.single {w w' : World} (h : World.Change w w') : w.Evolves w' :=
  ReflTransGen.single h

theorem World.Evolves.trans {w₁ w₂ w₃ : World} (h : w₁.Evolves w₂) (h' : w₂.Evolves w₃) :
    w₁.Evolves w₃ :=
  ReflTransGen.trans h h'

theorem World.Evolves.forest {w w' : World} (h : w.Evolves w') (hf : w.Forest) : w'.Forest := by
  induction h with
  | refl => exact hf
  | tail _ hchange ih => exact ih.change hchange

/-! ### Running programs -/

/-- The world of a machine leads to that of another, which has as many calls under way. -/
structure Machine.Evolves (m m' : Machine) : Prop where
  world : m.world.Evolves m'.world
  calls : m'.depth = m.depth

theorem Machine.Evolves.refl (m : Machine) : m.Evolves m := ⟨.refl m.world, rfl⟩

theorem Machine.Evolves.trans {m₁ m₂ m₃ : Machine} (h : m₁.Evolves m₂) (h' : m₂.Evolves m₃) :
    m₁.Evolves m₃ :=
  ⟨h.world.trans h'.world, h'.calls.trans h.calls⟩

theorem Machine.Evolves.withWorld (m : Machine) {w : World} (h : m.world.Evolves w) :
    m.Evolves { m with world := w } :=
  ⟨h, rfl⟩

/-- Running an action leads from its machine to the machine it leaves behind. -/
def Run.Evolves {α : Type} (act : Run α) : Prop := Run.Across Machine.Evolves act

theorem evolves_transition (lib : Library) :
    Transition lib Machine.Evolves Machine.Evolves where
  refl := .refl
  trans _ _ _ h h' := h.trans h'
  lift h := h
  andThen _ _ _ h h' := h.trans h'
  output m _ := ⟨.refl m.world, rfl⟩
  random m _ := ⟨.refl m.world, rfl⟩
  quit m := ⟨.refl m.world, rfl⟩
  assign m _ _ := ⟨.refl m.world, rfl⟩
  world m _ h := .withWorld m (.single (.program h))
  bindName m _ _ _ := ⟨.refl m.world, rfl⟩
  endBlock h := ⟨h.world, h.calls⟩
  endCall _ _ h := ⟨h.world, congrArg (· - 1) h.calls⟩

theorem eval_evolves (lib : Library) (fuel : Nat) (node : Node) :
    Run.Evolves (eval lib fuel node) :=
  (evolves_transition lib).eval fuel node

theorem call_evolves (lib : Library) (fuel : Nat) (name : String) (args : List Value) :
    Run.Evolves (call lib fuel name args) :=
  (evolves_transition lib).call fuel name args

theorem applyValue_evolves (lib : Library) (fuel : Nat) (callee : Value) (args : List Value) :
    Run.Evolves (applyValue lib fuel callee args) :=
  (evolves_transition lib).discipline.callValue (eval_evolves lib fuel) callee args

namespace Run.Evolves

variable {α β : Type}

theorem pure (a : α) : Run.Evolves (pure a : Run α) := .refl

theorem read (f : Machine → α) : Run.Evolves (Run.read f) := .refl

theorem bind {act : Run α} {next : α → Run β} (hact : Run.Evolves act)
    (hnext : ∀ a, Run.Evolves (next a)) : Run.Evolves (act >>= next) :=
  Run.Across.bind (fun _ _ _ h h' => h.trans h') hact fun a _ => hnext a

theorem changeWorld {f : World → Except Fault World}
    (hf : ∀ w w', f w = .ok w' → World.Change w w') : Run.Evolves (Run.changeWorld f) :=
  Run.Across.changeWorld .refl fun m _ h => .withWorld m (.single (hf m.world _ h))

theorem modifyWorld {f : World → World} (hf : ∀ w : World, w.Evolves (f w)) :
    Run.Evolves (Run.modifyWorld f) :=
  fun m => .withWorld m (hf m.world)

theorem atTopLevel {act : Run Value} (hact : Run.Evolves act) :
    Run.Evolves (atTopLevel act) :=
  fun m => ⟨(hact { m with frame := .topLevel }).world, (hact { m with frame := .topLevel }).calls⟩

end Run.Evolves

theorem evalSource_evolves (lib : Library) (fuel : Nat) (source : String) :
    Run.Evolves (evalSource lib fuel source) := by
  rw [evalSource]
  split
  · exact .atTopLevel ((evolves_transition lib).evalForms fuel _)
  · exact .refl

/-! ### Loading a game -/

theorem register_evolves (spec : ObjectSpec) :
    Run.Evolves (Run.changeWorld fun w => (w.register spec).map (·.1)) := by
  refine .changeWorld fun w w' h => ?_
  obtain ⟨o, hr⟩ := register_of_map_eq_ok h
  exact .register hr

theorem declareFlags_evolves (names : List String) (w : World) :
    w.Evolves (names.foldl World.declareFlag w) := by
  induction names generalizing w with
  | nil => exact .refl w
  | cons name names ih => exact (World.Evolves.single (.declareFlag w name)).trans (ih _)

theorem place_evolves (o : ObjectId) (clause : Clause) :
    Run.Evolves (Run.changeWorld fun w =>
      match containerOf w clause with
      | .ok container => w.move o container
      | .error fault => .error fault) := by
  refine .changeWorld fun w w' h => ?_
  split at h
  · exact .program (.move h)
  · cases h

theorem evolves_loadLogic :
    LoadLogic (Discipline.judgement (fun _ => Run.Evolves) (fun _ => Run.Evolves)) where
  program lib := (evolves_transition lib).discipline.logic
  fails _ := trivial
  constantValue lib fuel node :=
    ⟨.atTopLevel (.collapse (eval_evolves lib fuel node)), fun _ _ => trivial⟩
  register spec _ := ⟨register_evolves spec, fun _ _ => trivial⟩
  declareFlags names := ⟨.modifyWorld (declareFlags_evolves names), fun _ _ => trivial⟩
  place {_ o} _ clause := ⟨place_evolves o clause, fun _ _ => trivial⟩
  setPropertyDefault name value _ :=
    ⟨.modifyWorld fun w => .single (.setPropertyDefault w name value), fun _ _ => trivial⟩
  failIn _ _ := ⟨.refl, fun _ ⟨_, h⟩ => nomatch h⟩

theorem load_evolves {settings : Settings} {fuel : Nat} {nodes : List Node} {g : Game}
    (h : load settings fuel nodes = .done g) :
    (Machine.initial settings.random).Evolves g.machine := by
  obtain ⟨ds, library, vocabulary, hrun⟩ := load_eq_done h
  have hevolves := (evolves_loadLogic.loadDeclarations (s := ()) settings fuel ds).1
    (.initial settings.random)
  rw [hrun] at hevolves
  exact hevolves

/-! ### Playing -/

theorem offer_evolves (lib : Library) (fuel : Nat) (h : Game.Handler) :
    Run.Evolves (Game.offer lib fuel h) :=
  .bind (.read _) fun _ => call_evolves lib fuel _ _

theorem perform_evolves (lib : Library) (fuel : Nat) (hs : List Game.Handler) :
    Run.Evolves (Game.perform lib fuel hs) := by
  induction hs with
  | nil => exact .pure _
  | cons h hs ih =>
    refine .bind (offer_evolves lib fuel h) fun value => ?_
    split
    · exact .pure value
    · exact ih

theorem machine_reply (g : Game) (ended : Outcome Value × Machine) :
    (g.reply ended).2.machine = { ended.2 with output := "" } := by
  rcases ended with ⟨_ | _ | _ | _, m⟩ <;> rfl

theorem reply_evolves {g : Game} {m : Machine} {ended : Outcome Value × Machine}
    (h : m.Evolves ended.2) : m.Evolves (g.reply ended).2.machine := by
  rw [machine_reply]
  exact ⟨h.world, h.calls⟩

theorem start_evolves (g : Game) (fuel : Nat) : g.machine.Evolves (g.start fuel).2.machine := by
  rw [Game.start]
  split
  · exact reply_evolves (call_evolves g.library fuel _ _ g.machine)
  · exact reply_evolves (.refl _)

theorem command_evolves (g : Game) (fuel : Nat) (input : String) :
    g.machine.Evolves (g.command fuel input).2.machine := by
  rw [Game.command, CommandReader.accept]
  rcases g.reader.resolve g.machine.world input with command | ⟨phrase, candidates⟩ | phrase
  · have hslots : g.machine.Evolves
        { g.machine with world := { g.machine.world with slots := command.slots } } :=
      .withWorld g.machine (.single (.fillSlots _ command.slots))
    exact reply_evolves (hslots.trans (perform_evolves g.library fuel _ _))
  · exact .refl _
  · exact .refl _

theorem evaluateForm_evolves (g : Game) (fuel : Nat) (source : String) :
    g.machine.Evolves (Console.evaluateForm g fuel source).2.machine := by
  have hrun := evalSource_evolves g.library fuel source g.machine
  rw [Console.evaluateForm, Game.evaluate, Game.run]
  generalize evalSource g.library fuel source g.machine = ended at hrun ⊢
  rcases ended with ⟨_ | _ | _ | _, m⟩ <;> exact ⟨hrun.world, hrun.calls⟩

theorem respond_evolves (g : Game) (fuel : Nat) (text : String) :
    g.machine.Evolves (Console.respond g fuel text).2.machine := by
  rw [Console.respond]
  split
  · exact evaluateForm_evolves g fuel text
  · exact command_evolves g fuel text

theorem complete_evolves (c : Console) (fuel : Nat) (text : String) :
    c.game.machine.Evolves (c.complete fuel text).1.game.machine := by
  rw [Console.complete]
  dsimp only
  split
  · exact .refl _
  · exact respond_evolves c.game fuel _

theorem accept_evolves (c : Console) (fuel : Nat) (entry : Option Entry) :
    c.game.machine.Evolves (c.accept fuel entry).1.game.machine := by
  have hline : ∀ text, c.game.machine.Evolves
      (if formDepth text ≤ 0 then c.complete fuel text
        else ({ c with pending := some text }, .waiting)).1.game.machine := by
    intro text
    split
    · exact complete_evolves c fuel text
    · exact .refl _
  rcases entry with _ | line | _ | problem
  · rw [Console.accept]
    split
    · exact .refl _
    · exact .refl _
  · exact hline _
  · exact .refl _
  · exact .refl _

/-! ### Worlds that can come about -/

/-- The worlds that can come about: the empty world, and what comes of a world by a change, by
running a program on it, by loading a game, by starting one, by a player's line, or by any entry
at the console. -/
inductive World.Reachable : World → Prop
  | empty : Reachable .empty
  | change {w w' : World} (hw : Reachable w) (h : World.Change w w') : Reachable w'
  | eval {m : Machine} (hm : Reachable m.world) (lib : Library) (fuel : Nat) (node : Node) :
      Reachable (eval lib fuel node m).2.world
  | call {m : Machine} (hm : Reachable m.world) (lib : Library) (fuel : Nat) (name : String)
      (args : List Value) : Reachable (call lib fuel name args m).2.world
  | applyValue {m : Machine} (hm : Reachable m.world) (lib : Library) (fuel : Nat)
      (callee : Value) (args : List Value) :
      Reachable (applyValue lib fuel callee args m).2.world
  | evalSource {m : Machine} (hm : Reachable m.world) (lib : Library) (fuel : Nat)
      (source : String) : Reachable (evalSource lib fuel source m).2.world
  | load {settings : Settings} {fuel : Nat} {nodes : List Node} {g : Game}
      (h : load settings fuel nodes = .done g) : Reachable g.machine.world
  | start {g : Game} (hg : Reachable g.machine.world) (fuel : Nat) :
      Reachable (g.start fuel).2.machine.world
  | command {g : Game} (hg : Reachable g.machine.world) (fuel : Nat) (input : String) :
      Reachable (g.command fuel input).2.machine.world
  | accept {c : Console} (hc : Reachable c.game.machine.world) (fuel : Nat)
      (entry : Option Entry) : Reachable (c.accept fuel entry).1.game.machine.world

namespace World.Reachable

theorem evolves {w : World} (h : Reachable w) : World.empty.Evolves w := by
  induction h with
  | empty => exact .refl _
  | change _ h ih => exact ih.trans (.single h)
  | eval _ lib fuel node ih => exact ih.trans (eval_evolves lib fuel node _).world
  | call _ lib fuel name args ih => exact ih.trans (call_evolves lib fuel name args _).world
  | applyValue _ lib fuel callee args ih =>
    exact ih.trans (applyValue_evolves lib fuel callee args _).world
  | evalSource _ lib fuel source ih => exact ih.trans (evalSource_evolves lib fuel source _).world
  | load h => exact (load_evolves h).world
  | start _ fuel ih => exact ih.trans (start_evolves _ fuel).world
  | command _ fuel input ih => exact ih.trans (command_evolves _ fuel input).world
  | accept _ fuel entry ih => exact ih.trans (accept_evolves _ fuel entry).world

theorem forest {w : World} (h : Reachable w) : w.Forest :=
  h.evolves.forest .empty

/-- In every world that can come about the objects form a forest: child lists have no
repetitions and agree with the parents, all handles in them are in range, no object is above
itself, and going up from an object ends at one without a container after at most as many steps
as there are objects.  So the search for an ancestor ends, further steps would change nothing,
and it answers whether the one object is reached from the other by one or more links. -/
theorem containment_forest {w : World} (h : Reachable w) :
    (∀ p, (w.children p).Nodup) ∧
    (∀ c p, c ∈ w.children p ↔ w.parent? c = some p) ∧
    (∀ c p, w.parent? c = some p → w.Has c ∧ w.Has p) ∧
    (∀ c p, c ∈ w.children p → w.Has c ∧ w.Has p) ∧
    (∀ o, ¬ w.Ancestor o o) ∧
    (∀ o, ∃ k ≤ w.objects.length, ∃ root, w.climb k o = some root ∧ w.parent? root = none) ∧
    (∀ steps, w.objects.length ≤ steps → ∀ a x, w.meetsAbove a steps x = w.isAncestor a x) ∧
    (∀ a x, w.isAncestor a x = true ↔ w.Ancestor a x) := by
  have hf := h.forest
  refine ⟨hf.nodup, hf.mem_children, fun c p hp => ⟨has_of_parent? hp, hf.parent_has hp⟩,
    fun c p hc => ⟨hf.child_has hc, has_of_mem_children hc⟩, hf.acyclic, hf.exists_root, ?_,
    hf.isAncestor_iff⟩
  intro steps hsteps a x
  rw [Bool.eq_iff_iff, hf.meetsAbove_iff_ancestor hsteps, hf.isAncestor_iff]

/-- A lamp moved into a box. -/
theorem containment_forest_lamp :
    ∃ w₁ w₂ w₃ : World,
      World.empty.register (.named "BOX") = .ok (w₁, ⟨0⟩) ∧
      w₁.register (.named "LAMP") = .ok (w₂, ⟨1⟩) ∧
      w₂.move ⟨1⟩ ⟨0⟩ = .ok w₃ ∧
      w₃.children ⟨0⟩ = [⟨1⟩] ∧ w₃.Ancestor ⟨0⟩ ⟨1⟩ ∧ ¬ w₃.Ancestor ⟨1⟩ ⟨0⟩ := by
  refine ⟨_, _, _, rfl, rfl, rfl, rfl, ?_⟩
  have hbox := Reachable.empty.change
    (.register (show World.empty.register (.named "BOX") = .ok (_, ⟨0⟩) from rfl))
  have hlamp := hbox.change
    (.register (show World.register _ (.named "LAMP") = .ok (_, ⟨1⟩) from rfl))
  have hlaws := containment_forest
    (hlamp.change (.program (.move (show World.move _ ⟨1⟩ ⟨0⟩ = .ok _ from rfl))))
  obtain ⟨-, -, -, -, -, -, -, hancestor⟩ := hlaws
  exact ⟨(hancestor ⟨0⟩ ⟨1⟩).mp rfl, fun h => nomatch (hancestor ⟨1⟩ ⟨0⟩).mpr h⟩

end World.Reachable

end TextAdventure
