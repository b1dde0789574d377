import TextAdventure.Proofs.Play.Actions
import TextAdventure.Proofs.Program.Handles

/-!
Sessions keep handles in range.

Loading a game gives a sound machine, and whatever is then done with the game leaves it sound, as
long as only handles in range are handed in.  A player's line can bring in no others, since what
it refers to is found among the objects there are.

* `load_sound` — a loaded game is sound;
* `CommandReader.resolve_inRange` — a player's line refers to objects that are there;
* `Game.Admits` — what is handed in is in range at the time;
* `Game.take_closed`, `Game.takeAll_closed` — one action and then several keep a game sound and
  answer with handles in range;
* `handles_closed` — so no handle ever stands for nothing, and the faults that would say so do not
  come up in play.
-/

namespace TextAdventure

/-! ### Loading a game -/

theorem World.Sound.declareFlags {w : World} (h : w.Sound) (names : List String) :
    w.SoundAfter (names.foldl World.declareFlag w) := by
  induction names generalizing w with
  | nil => exact ⟨h, w.extent.le_refl⟩
  | cons name names ih =>
    have hflag := h.declareFlag name
    have hrest := ih hflag.sound
    exact ⟨hrest.sound, Extent.le_trans hflag.extent hrest.extent⟩

theorem has_of_containerOf {w : World} {clause : Clause} {container : ObjectId}
    (h : containerOf w clause = .ok container) : w.Has container := by
  rw [containerOf] at h
  split at h
  · cases h
  · split at h
    · rename_i o ho
      cases h
      exact World.lookup?_lt ho
    · cases h

/-- Loading keeps a machine sound. -/
theorem handle_loadLogic : LoadLogic (handleJudgement fun _ => True) where
  program lib := handle_logic (fun _ _ => trivial) lib
  fails _ := trivial
  constantValue lib fuel node :=
    .atTopLevel (.collapse (eval_closed (fun _ _ => trivial) lib fuel node))
  register spec h := by
    refine .changeWorld (fun w w' hw hs hw' => ?_) fun _ _ _ _ _ => trivial
    obtain ⟨o, hr⟩ := register_of_map_eq_ok hw'
    exact hw.register (hs ▸ h) hr
  declareFlags names := .modifyWorld fun _ hw _ => hw.declareFlags names
  place ho clause := by
    refine .changeWorld (fun w w' hw hs hw' => ?_) fun _ _ _ _ _ => trivial
    subst hs
    split at hw'
    · rename_i container hcontainer
      exact (hw.move ho (has_of_containerOf hcontainer)).of_ok hw'
    · cases hw'
  setPropertyDefault name _ h := .modifyWorld fun _ hw hs => hw.setPropertyDefault name (hs ▸ h)
  failIn _ _ := .of_same (fun _ => rfl) fun _ _ _ => .inl trivial

theorem load_sound {settings : Settings} {fuel : Nat} {nodes : List Node} {g : Game}
    (h : load settings fuel nodes = .done g) : g.machine.Sound := by
  obtain ⟨ds, library, vocabulary, hrun⟩ := load_eq_done h
  have hinitial : (Machine.initial settings.random).Sound := ⟨.empty, .topLevel⟩
  have hended := handle_loadLogic.loadDeclarations (s := World.empty.extent) settings fuel ds
    (.initial settings.random) hinitial rfl
  rw [hrun] at hended
  exact hended.sound

/-! ### Understanding a player's line -/

/-- Every object that a phrase was found to mean is there. -/
def Referent.InRange (e : Extent) : Referent → Prop
  | .unique o => o.index < e.objects
  | .ambiguous candidates => ∀ o ∈ candidates, o.index < e.objects
  | .missing => True

/-- Every handle in what a line was found to mean is in range. -/
def Resolution.InRange (e : Extent) : Resolution → Prop
  | .parsed command => command.direct.InRange e ∧ command.indirect.InRange e
  | .which _ candidates => ∀ o ∈ candidates, o.index < e.objects
  | .notUnderstood _ => True

namespace NounPhrase

theorem has_of_mem_matching {w : World} {scope : List ObjectId} {test : GameObject → Bool}
    {o : ObjectId} (h : o ∈ matching w scope test) : w.Has o := by
  have htest := (List.mem_filter.mp h).2
  split at htest
  · rename_i object hobject
    exact World.has_of_object? hobject
  · cases htest

theorem has_of_mem_candidates {p : NounPhrase} {w : World} {scope : List ObjectId}
    {o : ObjectId} (h : o ∈ p.candidates w scope) : w.Has o := by
  rw [candidates] at h
  split at h
  · exact has_of_mem_matching h
  · exact has_of_mem_matching h

theorem resolve_inRange (p : NounPhrase) (w : World) (scope : List ObjectId) :
    (p.resolve w scope).InRange w.extent := by
  have hcandidates : ∀ o ∈ p.candidates w scope, w.Has o := fun _ => has_of_mem_candidates
  rw [resolve]
  split
  · exact trivial
  · rename_i o hfound
    exact hcandidates o (hfound ▸ List.mem_singleton_self o)
  · exact hcandidates

end NounPhrase

namespace CommandReader

/-- A phrase stands for a value in range, or is a question or a puzzle about objects that are
there. -/
theorem resolvePhrase_inRange (w : World) (scope : List ObjectId) (words : List String) :
    (∀ v, resolvePhrase w scope words = .ok v → v.InRange w.extent) ∧
    ∀ resolution, resolvePhrase w scope words = .error resolution →
      resolution.InRange w.extent := by
  rw [resolvePhrase]
  split
  · exact ⟨fun _ h => by cases h; exact trivial, fun _ h => nomatch h⟩
  · rename_i phrase _
    have hphrase := phrase.resolve_inRange w scope
    split
    · rename_i o ho
      rw [ho] at hphrase
      exact ⟨fun _ h => by cases h; exact hphrase, fun _ h => nomatch h⟩
    · rename_i candidates hcandidates
      rw [hcandidates] at hphrase
      exact ⟨fun _ h => (nomatch h), fun _ h => by cases h; exact hphrase⟩
    · exact ⟨fun _ h => (nomatch h), fun _ h => by cases h; exact trivial⟩

theorem complete_inRange (i : CommandReader) (w : World) (rule : CommandRule) (p : Phrases) :
    (i.complete w rule p).InRange w.extent := by
  have hdirect := resolvePhrase_inRange w (i.scope w) p.direct
  have hindirect := resolvePhrase_inRange w (i.scope w) p.indirect
  rw [complete]
  split
  · rename_i resolution h
    exact hdirect.2 resolution h
  · rename_i direct h
    split
    · rename_i resolution h'
      exact hindirect.2 resolution h'
    · rename_i indirect h'
      exact ⟨hdirect.1 direct h, hindirect.1 indirect h'⟩

/-- Whatever a player's line means, the objects that it refers to are there. -/
theorem resolve_inRange (i : CommandReader) (w : World) (input : String) :
    (i.resolve w input).InRange w.extent := by
  rw [resolve, resolveWords.eq_def]
  split
  · exact trivial
  · split
    -- to go somewhere is to have a direction for an object, which is a name and no handle
    · exact ⟨trivial, trivial⟩
    · split
      · exact trivial
      · dsimp only
        split
        · exact trivial
        · exact i.complete_inRange w _ _

end CommandReader

theorem Command.slots_inRange {e : Extent} {c : Command}
    (h : (Resolution.parsed c).InRange e) (slot : Slot) : (c.slots.get slot).InRange e := by
  cases slot with
  | action => exact trivial
  | direct => exact h.1
  | indirect => exact h.2

/-! ### Carrying out a command -/

section

variable {allowed : Fault → Prop} (hallowed : ∀ fault, fault.isOrdinary = true → allowed fault)
  (lib : Library) (fuel : Nat) {s : Extent}
include hallowed

theorem offer_closed (h : Game.Handler) :
    Run.Closed allowed s (fun e v => v.InRange e) (Game.offer lib fuel h) := by
  refine .bind (V := fun e v => v.InRange e) (.of_same (fun _ => rfl) fun m hm hs => ?_)
    fun t _ begin hbegin => ?_
  · subst hs
    show (Game.beginning m.world).InRange m.world.extent
    rw [Game.beginning]
    cases hv : m.world.global? "M-BEG" with
    | none => exact trivial
    | some v => exact hm.world.global? hv
  · refine call_closed hallowed lib fuel h.routine fun v hv => ?_
    split at hv
    · rw [List.mem_singleton.mp hv]
      exact hbegin
    · cases hv

theorem perform_closed (hs : List Game.Handler) :
    Run.Closed allowed s (fun e v => v.InRange e) (Game.perform lib fuel hs) := by
  induction hs generalizing s with
  | nil => exact .of_same (fun _ => rfl) fun _ _ _ => trivial
  | cons h hs ih =>
    refine .bind (offer_closed hallowed lib fuel h) fun t _ value hvalue => ?_
    split
    · exact .of_same (fun _ => rfl) fun _ _ _ => hvalue
    · exact ih

end

/-! ### Sessions -/

/-- What an answer hands out is in range, and the fault that it reports is ordinary, or that
handles for tables have run out. -/
structure Answer.Closed (e : Extent) (a : Answer) : Prop where
  values : ∀ v ∈ a.values, v.InRange e
  fault : ∀ fault, a.fault = some fault → fault.AllowedAt (·.isOrdinary = true) e

namespace Answer.Closed

variable {e : Extent}

theorem none : Answer.Closed e ⟨[], .none⟩ := ⟨fun _ h => (nomatch h), fun _ h => nomatch h⟩

theorem value {v : Value} (h : v.InRange e) : Answer.Closed e ⟨[v], .none⟩ :=
  ⟨fun _ hv => List.mem_singleton.mp hv ▸ h, fun _ h => nomatch h⟩

theorem failed {fault : Fault} (h : fault.AllowedAt (·.isOrdinary = true) e) :
    Answer.Closed e ⟨[], some fault⟩ :=
  ⟨fun _ h => (nomatch h), fun _ hf => Option.some.inj hf ▸ h⟩

theorem ofOutcome {outcome : Outcome Value}
    (h : outcome.Closed (·.isOrdinary = true) (fun e v => v.InRange e) e) :
    outcome.answer.Closed e := by
  cases outcome with
  | done v => exact .value h
  | signal s => exact .value h
  | failed f => exact .failed h
  | exhausted _ => exact .none

theorem mono {e' : Extent} {a : Answer} (h : a.Closed e) (hle : e ≤ e') : a.Closed e' :=
  ⟨fun v hv => (h.values v hv).mono hle, fun fault hf => (h.fault fault hf).mono hle⟩

end Answer.Closed

namespace Game

/-- A game that began at an extent has come to be sound again, with a closed answer. -/
structure AnsweredClosed (s : Extent) (ended : Answer × Game) : Prop where
  sound : ended.2.machine.Sound
  extent : s ≤ ended.2.machine.world.extent
  answer : ended.1.Closed ended.2.machine.world.extent

/-- What an action hands in from outside is in range. -/
def Action.InRange (e : Extent) : Action → Prop
  | .call _ args => ∀ v ∈ args, v.InRange e
  | .apply _ args => ∀ v ∈ args, v.InRange e
  | .useFrame frame => frame.InRange e
  | _ => True

/-- What some actions hand in from outside is in range whenever one of them is taken. -/
def Admits (fuel : Nat) : Game → List Action → Prop
  | _, [] => True
  | g, action :: actions =>
    action.InRange g.machine.world.extent ∧ Admits fuel (g.take fuel action).2 actions

theorem answer_reply (g : Game) (ended : Outcome Value × Machine) :
    (g.reply ended).1.outcome.answer = ended.1.answer := by
  rcases ended with ⟨_ | _ | _ | _, m⟩ <;> rfl

section

variable {g : Game} {s : Extent}

theorem answering_closed {act : Run Value} (hg : g.machine.Sound)
    (hact : act.Closed (·.isOrdinary = true) g.machine.world.extent (fun e v => v.InRange e)) :
    AnsweredClosed g.machine.world.extent (answering (g.run act)) := by
  obtain ⟨hsound, hextent, hout⟩ := hact g.machine hg rfl
  exact ⟨hsound, hextent, .ofOutcome hout⟩

theorem replying_closed {ended : Outcome Value × Machine}
    (h : EndedClosed (·.isOrdinary = true) s (fun e v => v.InRange e) ended) :
    AnsweredClosed s (replying (g.reply ended)) := by
  have hmachine : (replying (g.reply ended)).2.machine = { ended.2 with output := "" } :=
    machine_reply g ended
  have hanswer : (replying (g.reply ended)).1 = ended.1.answer := answer_reply g ended
  refine ⟨?_, ?_, ?_⟩
  · rw [hmachine]
    exact ⟨h.sound.world, h.sound.frame⟩
  · rw [hmachine]
    exact h.extent
  · rw [hmachine, hanswer]
    exact .ofOutcome h.outcome

theorem start_closed (hg : g.machine.Sound) (fuel : Nat) :
    AnsweredClosed g.machine.world.extent (replying (g.start fuel)) := by
  rw [start]
  split
  · have hargs : ∀ v ∈ ([] : List Value), v.InRange g.machine.world.extent :=
      List.forall_mem_nil _
    exact replying_closed (call_closed (fun _ h => h) g.library fuel _ hargs g.machine hg rfl)
  · exact replying_closed ⟨hg, Extent.le_refl _, trivial⟩

theorem command_closed (hg : g.machine.Sound) (fuel : Nat) (input : String) :
    AnsweredClosed g.machine.world.extent (replying (g.command fuel input)) := by
  have hmeaning := g.reader.resolve_inRange g.machine.world input
  rw [command, CommandReader.accept]
  generalize g.reader.resolve g.machine.world input = meaning at hmeaning ⊢
  rcases meaning with command | ⟨phrase, candidates⟩ | phrase
  · have hslots := hg.world.setSlots (Command.slots_inRange hmeaning)
    exact replying_closed (perform_closed (fun _ h => h) g.library fuel _ _
      (hg.withWorld hslots) rfl)
  · refine ⟨hg, Extent.le_refl _, ⟨fun v hv => ?_, by rintro _ ⟨⟩⟩⟩
    obtain ⟨o, ho, rfl⟩ := List.mem_map.mp hv
    exact hmeaning o ho
  · exact ⟨hg, Extent.le_refl _, .none⟩

/-- Taking an action keeps a game sound, and its answer is closed. -/
theorem take_closed (hg : g.machine.Sound) (fuel : Nat) {action : Action}
    (h : action.InRange g.machine.world.extent) :
    AnsweredClosed g.machine.world.extent (g.take fuel action) := by
  have hallowed : ∀ fault : Fault, fault.isOrdinary = true → fault.isOrdinary = true :=
    fun _ h => h
  cases action with
  | start => exact start_closed hg fuel
  | command input => exact command_closed hg fuel input
  | call name args => exact answering_closed hg (call_closed hallowed g.library fuel name h)
  | apply callee args =>
    exact answering_closed hg (applyValue_closed hallowed g.library fuel callee h)
  | evaluate source => exact answering_closed hg (evalSource_closed hallowed g.library fuel source)
  | useFrame frame => exact ⟨⟨hg.world, h⟩, Extent.le_refl _, .none⟩
  | eval node => exact answering_closed hg (eval_closed hallowed g.library fuel node)

/-- Taking actions one after another keeps a game sound, and all answers are closed. -/
theorem takeAll_closed (hg : g.machine.Sound) {fuel : Nat} {actions : List Action}
    (h : g.Admits fuel actions) :
    (g.takeAll fuel actions).2.machine.Sound ∧
    g.machine.world.extent ≤ (g.takeAll fuel actions).2.machine.world.extent ∧
    ∀ answer ∈ (g.takeAll fuel actions).1,
      answer.Closed (g.takeAll fuel actions).2.machine.world.extent := by
  induction actions generalizing g with
  | nil => exact ⟨hg, Extent.le_refl _, fun _ h => nomatch h⟩
  | cons action actions ih =>
    obtain ⟨haction, hactions⟩ := h
    obtain ⟨hsound, hextent, hanswer⟩ := take_closed hg fuel haction
    obtain ⟨hsound', hextent', hanswers⟩ := ih hsound hactions
    -- the first answer was in range when it was given, and nothing has gone away since
    exact ⟨hsound', Extent.le_trans hextent hextent',
      List.forall_mem_cons.mpr ⟨hanswer.mono hextent', hanswers⟩⟩

end

end Game

/-- Whether a fault is reported as an internal error. -/
def Fault.isInternal : Fault → Bool
  | .cycle _ _ => true
  | .unknownTable _ => true
  | .outOfHandles _ => true
  | .unfinishedInput => true
  | .input _ => true
  | _ => false

theorem Fault.eq_cycle_of_isOrdinary {fault : Fault} (h : fault.isOrdinary = true)
    (hinternal : fault.isInternal = true) :
    ∃ object container, fault = .cycle object container := by
  cases fault with
  | cycle object container => exact ⟨object, container, rfl⟩
  | unknownTable t => cases h
  | outOfHandles kind => cases h
  | unfinishedInput => cases h
  | input problem => cases h
  | _ => cases hinternal

/-- No handle ever stands for nothing.  In a game that has been loaded the objects form a forest
and every stored handle is in range.  From any such game, any sequence of evaluations, calls,
commands and frames, with only handles in range handed in, leads to such a game again, whatever
failed on the way; all handles in its answers are in range; and none of the faults that it reports
says that an object is missing, or is internal, but for those that refuse to make a cycle and those
that refuse a table once there are as many as there are handles for. -/
theorem handles_closed :
    (∀ settings fuel nodes g, load settings fuel nodes = .done g → g.machine.Sound) ∧
    ∀ (g : Game) fuel actions, g.machine.Sound → g.Admits fuel actions →
      (g.takeAll fuel actions).2.machine.Sound ∧
      ∀ answer ∈ (g.takeAll fuel actions).1,
        (∀ v ∈ answer.values,
          v.InRange (g.takeAll fuel actions).2.machine.world.extent) ∧
        ∀ fault, answer.fault = some fault →
          (∀ name, fault ≠ .noSuchObject name) ∧
          (fault.isInternal = true → (∃ object container, fault = .cycle object container) ∨
            fault = .outOfHandles "tables" ∧
              handleLimit ≤ (g.takeAll fuel actions).2.machine.world.tables.length) := by
  refine ⟨fun _ _ _ _ => load_sound, fun g fuel actions hg hactions => ?_⟩
  obtain ⟨hsound, -, hanswers⟩ := Game.takeAll_closed hg hactions
  refine ⟨hsound, fun answer hanswer => ⟨(hanswers answer hanswer).values, fun fault hf => ?_⟩⟩
  rcases (hanswers answer hanswer).fault fault hf with hordinary | ⟨rfl, hfull⟩
  · refine ⟨?_, fun h => .inl (Fault.eq_cycle_of_isOrdinary hordinary h)⟩
    rintro name rfl
    cases hordinary
  · exact ⟨nofun, fun _ => .inr ⟨rfl, hfull⟩⟩

/-- A box, and a global that holds it and, further in, a table with it. -/
def treasure : List Node :=
  [.form "OBJECT" [.atom "BOX" default] default,
    .form "GLOBAL"
      [.atom "TREASURE" default,
        .list
          [.atom "BOX" default,
            .list [.form "TABLE" [.reference .comma "BOX" default] default] default]
          default]
      default]

/-- A call that does not find its routine, and a box put into itself. -/
def mishaps : List Game.Action :=
  [.call "OPEN-BOX" [.object ⟨0⟩],
    .eval (.form "MOVE" [.reference .comma "BOX" default, .reference .comma "BOX" default] default)]

/-- After both mishaps every handle is still in range. -/
theorem handles_closed_treasure :
    ∃ g : Game, load .standard 9 treasure = .done g ∧
      g.machine.world.global? "TREASURE" = some (.list [.object ⟨0⟩, .list [.table ⟨0⟩]]) ∧
      g.Admits 9 mishaps ∧
      (g.takeAll 9 mishaps).1.map (·.fault) =
        [some (.noSuchRoutine "OPEN-BOX"), some (.cycle "BOX" "BOX")] ∧
      (g.takeAll 9 mishaps).2.machine.Sound := by
  obtain ⟨g, hload, hbox, hglobal, hfaults⟩ : ∃ g : Game,
      load .standard 9 treasure = .done g ∧
      g.machine.world.lookup? "BOX" = some ⟨0⟩ ∧
      g.machine.world.global? "TREASURE" = some (.list [.object ⟨0⟩, .list [.table ⟨0⟩]]) ∧
      (g.takeAll 9 mishaps).1.map (·.fault) =
        [some (.noSuchRoutine "OPEN-BOX"), some (.cycle "BOX" "BOX")] :=
    ⟨_, rfl, rfl, rfl, rfl⟩
  have hadmits : g.Admits 9 mishaps := by
    refine ⟨fun v hv => ?_, trivial, trivial⟩
    rw [List.mem_singleton.mp hv]
    exact World.lookup?_lt hbox
  have hsound := handles_closed.1 .standard 9 treasure g hload
  exact ⟨g, hload, hglobal, hadmits, hfaults, (handles_closed.2 g 9 mishaps hsound hadmits).1⟩

end TextAdventure
