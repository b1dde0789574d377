import TextAdventure.Play.Session
import TextAdventure.Proofs.Command.Reference

/-!
Command slots.

A player's line that is no command, or that leaves open which object is meant, changes nothing.  A
command fills the three slots before any routine runs, and changes nothing else until then.  What
the slots held before does not matter to a line, as long as the actor and the location are not read
from them.

* `CommandReader.SameView` — two worlds show a reader of commands the same objects;
* `CommandReader.resolve_congr` — a line means the same in such worlds;
* `Game.command_of_parsed`, `Game.command_of_notUnderstood`, `Game.command_of_which` — the three
  ways in which a line is dealt with;
* `Game.command_touches_slots_only` — what a line changes before routines run, and that its meaning
  does not depend on the slots;
* `Game.commandAll_withSlots` — nor do the replies to any number of lines.
-/

namespace TextAdventure

/-! ### What resolving a line reads -/

namespace World

variable {w w' : World}

theorem object?_congr (h : w'.objects = w.objects) : w'.object? = w.object? := by
  funext o
  rw [object?, object?, h]

theorem children_congr (h : w'.objects = w.objects) : w'.children = w.children := by
  funext o
  rw [children, children, object?_congr h]

theorem showsContents_congr (h : w'.objects = w.objects) (hflags : w'.flags = w.flags) :
    w'.showsContents = w.showsContents := by
  funext o
  rw [showsContents, showsContents, flag, flag, flag, flag, object?_congr h, hflags]

theorem collect_congr (h : w'.objects = w.objects) (hflags : w'.flags = w.flags)
    (actor : Option ObjectId) (depth : Nat) : w'.collect actor depth = w.collect actor depth := by
  induction depth with
  | zero => rfl
  | succ depth ih =>
    funext scope container
    rw [collect, collect, children_congr h, showsContents_congr h hflags, ih]

/-- Scope is found in the tree of objects and their flags. -/
theorem visibleObjects_congr (h : w'.objects = w.objects) (hflags : w'.flags = w.flags)
    (actor location : Option ObjectId) :
    w'.visibleObjects actor location = w.visibleObjects actor location := by
  have hroots : w'.scopeRoots actor location = w.scopeRoots actor location := by
    have hparent : w'.parent? = w.parent? := by
      funext o
      rw [parent?, parent?, object?_congr h]
    rw [scopeRoots, scopeRoots, hparent, lookup?, lookup?, h]
  rw [visibleObjects, visibleObjects, hroots, h, collect_congr h hflags]

end World

theorem NounPhrase.resolve_congr {w w' : World} (h : w'.objects = w.objects) (p : NounPhrase)
    (scope : List ObjectId) : p.resolve w' scope = p.resolve w scope := by
  have hmatching : ∀ test, matching w' scope test = matching w scope test := by
    intro test
    rw [matching, matching, World.object?_congr h]
  rw [resolve, resolve, candidates, candidates, hmatching, hmatching]

namespace CommandReader

/-- Two worlds show a reader of commands the same: they have the same objects, with the same
flags, and the same of them are the actor and the location. -/
structure SameView (i : CommandReader) (w w' : World) : Prop where
  objects : w'.objects = w.objects
  flags : w'.flags = w.flags
  actor : (w'.global i.actorGlobal).object? = (w.global i.actorGlobal).object?
  location : (w'.global i.locationGlobal).object? = (w.global i.locationGlobal).object?

section Congruence

variable {i : CommandReader} {w w' : World}

theorem scope_congr (h : i.SameView w w') : i.scope w' = i.scope w := by
  rw [scope, scope, h.actor, h.location, World.visibleObjects_congr h.objects h.flags]

theorem resolvePhrase_congr (h : w'.objects = w.objects) (scope : List ObjectId)
    (words : List String) : resolvePhrase w' scope words = resolvePhrase w scope words := by
  rw [resolvePhrase, resolvePhrase]
  cases NounPhrase.ofWords? words with
  | none => rfl
  | some phrase =>
    dsimp only
    rw [phrase.resolve_congr h]

theorem complete_congr (h : i.SameView w w') (rule : CommandRule) (p : Phrases) :
    i.complete w' rule p = i.complete w rule p := by
  rw [complete, complete, scope_congr h, resolvePhrase_congr h.objects,
    resolvePhrase_congr h.objects]

/-- A line means the same in worlds that show the same. -/
theorem resolve_congr (h : i.SameView w w') (input : String) :
    i.resolve w' input = i.resolve w input := by
  rw [resolve, resolve]
  cases i.meaningfulWords input with
  | nil => rfl
  | cons first words => simp only [resolveWords, complete_congr h]

end Congruence

end CommandReader

/-! ### Slots -/

/-- A world with other command slots. -/
def World.withSlots (s : CommandSlots) (w : World) : World := { w with slots := s }

theorem Slot.ofName?_eq_none {name : String} (h : name ∉ ["PRSA", "PRSO", "PRSI"]) :
    ofName? name = none := by
  simp only [List.mem_cons, List.not_mem_nil, or_false, not_or] at h
  rw [ofName?, if_neg h.1, if_neg h.2.1, if_neg h.2.2]

/-- Only the names of the slots read them. -/
theorem World.global_withSlots {name : String} (h : canonical name ∉ ["PRSA", "PRSO", "PRSI"])
    (s : CommandSlots) (w : World) : (w.withSlots s).global name = w.global name := by
  rw [global, global, global?, global?, Slot.ofName?_eq_none h]
  rfl

/-- A reader that finds neither the actor nor the location in a command slot. -/
structure CommandReader.IgnoresSlots (i : CommandReader) : Prop where
  actor : canonical i.actorGlobal ∉ ["PRSA", "PRSO", "PRSI"]
  location : canonical i.locationGlobal ∉ ["PRSA", "PRSO", "PRSI"]

theorem CommandReader.IgnoresSlots.resolve_withSlots {i : CommandReader} (h : i.IgnoresSlots)
    (s : CommandSlots) (w : World) (input : String) :
    i.resolve (w.withSlots s) input = i.resolve w input := by
  have hview : i.SameView w (w.withSlots s) :=
    { objects := rfl
      flags := rfl
      actor := by rw [World.global_withSlots h.actor]
      location := by rw [World.global_withSlots h.location] }
  exact resolve_congr hview input

namespace Game

/-! ### One line -/

/-- A run ends in no reply that says that the line was not understood. -/
theorem reply_outcome_ne (g : Game) (ended : Outcome Value × Machine) :
    (∀ phrase, (g.reply ended).1.outcome ≠ .notUnderstood phrase) ∧
    ∀ candidates, (g.reply ended).1.outcome ≠ .ambiguous candidates := by
  obtain ⟨outcome, m⟩ := ended
  cases outcome <;> exact ⟨nofun, nofun⟩

/-- The routines of a command run on the machine of the game, with the slots filled. -/
def performed (g : Game) (fuel : Nat) (c : Command) : Reply × Game :=
  let w := g.machine.world.withSlots c.slots
  g.reply (perform g.library fuel (handlers g.settings w c) { g.machine with world := w })

section Meaning

variable {g : Game} {fuel : Nat} {input : String}

/-- A command is carried out. -/
theorem command_of_parsed {c : Command}
    (h : g.reader.resolve g.machine.world input = .parsed c) :
    g.command fuel input = g.performed fuel c := by
  rw [command, CommandReader.accept, h]
  rfl

/-- A line that is not understood is answered, and the game stays as it is. -/
theorem command_of_notUnderstood {phrase : String}
    (h : g.reader.resolve g.machine.world input = .notUnderstood phrase) :
    g.command fuel input = (⟨g.puzzlement phrase, .notUnderstood phrase⟩, g) := by
  rw [command, CommandReader.accept, h]

/-- A line that leaves open what is meant is answered by a question, and the game stays as it
is. -/
theorem command_of_which {phrase : String} {candidates : List ObjectId}
    (h : g.reader.resolve g.machine.world input = .which phrase candidates) :
    g.command fuel input =
      (⟨question g.machine.world phrase candidates, .ambiguous candidates⟩, g) := by
  rw [command, CommandReader.accept, h]

/-- Only a line that has no meaning is not understood, and it changes nothing. -/
theorem command_eq_notUnderstood {phrase : String}
    (h : (g.command fuel input).1.outcome = .notUnderstood phrase) :
    g.reader.resolve g.machine.world input = .notUnderstood phrase ∧
      (g.command fuel input).2 = g := by
  cases hresolve : g.reader.resolve g.machine.world input with
  | parsed c =>
    rw [command_of_parsed hresolve] at h
    exact absurd h ((g.reply_outcome_ne _).1 phrase)
  | notUnderstood other =>
    rw [command_of_notUnderstood hresolve] at h ⊢
    cases h
    exact ⟨rfl, rfl⟩
  | which other candidates =>
    rw [command_of_which hresolve] at h
    cases h

/-- Only a line that may mean several objects is ambiguous, and it changes nothing. -/
theorem command_eq_ambiguous {candidates : List ObjectId}
    (h : (g.command fuel input).1.outcome = .ambiguous candidates) :
    (∃ phrase, g.reader.resolve g.machine.world input = .which phrase candidates) ∧
      (g.command fuel input).2 = g := by
  cases hresolve : g.reader.resolve g.machine.world input with
  | parsed c =>
    rw [command_of_parsed hresolve] at h
    exact absurd h ((g.reply_outcome_ne _).2 candidates)
  | notUnderstood other =>
    rw [command_of_notUnderstood hresolve] at h
    cases h
  | which phrase others =>
    rw [command_of_which hresolve] at h ⊢
    cases h
    exact ⟨⟨phrase, rfl⟩, rfl⟩

end Meaning

/-- What a player's line changes.  One that is not understood, or that leaves open which object is
meant, changes nothing at all.  Before the routines of a command run, the three slots hold its verb
and its objects, and nothing else is changed.  The meaning of a line does not depend on what the
slots hold, unless the actor or the location is read from one of them. -/
theorem command_touches_slots_only (g : Game) (fuel : Nat) (input : String) :
    (∀ phrase, (g.command fuel input).1.outcome = .notUnderstood phrase →
      g.reader.resolve g.machine.world input = .notUnderstood phrase ∧
      (g.command fuel input).2 = g) ∧
    (∀ candidates, (g.command fuel input).1.outcome = .ambiguous candidates →
      (∃ phrase, g.reader.resolve g.machine.world input = .which phrase candidates) ∧
      (g.command fuel input).2 = g) ∧
    (∀ c, g.reader.resolve g.machine.world input = .parsed c → ∃ w,
      g.command fuel input =
        g.reply (perform g.library fuel (handlers g.settings w c) { g.machine with world := w }) ∧
      w = { g.machine.world with slots := w.slots } ∧
      w.global? "PRSA" = some (.ofName c.verb) ∧ w.global? "PRSO" = some c.direct ∧
      w.global? "PRSI" = some c.indirect) ∧
    (canonical g.reader.actorGlobal ∉ ["PRSA", "PRSO", "PRSI"] →
      canonical g.reader.locationGlobal ∉ ["PRSA", "PRSO", "PRSI"] →
      ∀ w w' : World, w' = { w with slots := w'.slots } →
        g.reader.resolve w' input = g.reader.resolve w input) := by
  refine ⟨fun phrase => command_eq_notUnderstood, fun candidates => command_eq_ambiguous,
    fun c hc => ?_, ?_⟩
  · rw [command_of_parsed hc]
    exact ⟨g.machine.world.withSlots c.slots, rfl, rfl, rfl, rfl, rfl⟩
  · intro hactor hlocation w w' hw
    have hignores : g.reader.IgnoresSlots := ⟨hactor, hlocation⟩
    rw [hw]
    exact hignores.resolve_withSlots w'.slots w input

/-- In the attic, "take lamp" is a question and changes nothing, and to put the brass lamp in the
sack means the same whatever was done before. -/
theorem command_touches_slots_only_attic :
    ∃ g : Game, load .standard 9 furnishedAttic = .done g ∧
      (g.command 9 "take lamp").1.outcome = .ambiguous [⟨3⟩, ⟨4⟩] ∧
      (g.command 9 "take lamp").2 = g ∧
      ∃ c, g.reader.resolve g.machine.world "put the brass lamp in the sack" = .parsed c ∧
        (∃ w, w.global? "PRSO" = some c.direct ∧ g.command 9 "put the brass lamp in the sack" =
          g.reply (perform g.library 9 (handlers g.settings w c)
            { g.machine with world := w })) ∧
        ∀ s, g.reader.resolve { g.machine.world with slots := s }
          "put the brass lamp in the sack" = .parsed c := by
  have hpasses : (load .standard 9 furnishedAttic).passes (fun g =>
      (g.reader.resolve g.machine.world "put the brass lamp in the sack").objects? ==
        some (some ⟨3⟩, some ⟨2⟩) &&
      (g.reader.resolve g.machine.world "take lamp").choice? ==
        some ("lamp", [⟨3⟩, ⟨4⟩]) &&
      (canonical g.reader.actorGlobal == "WINNER" &&
        canonical g.reader.locationGlobal == "HERE")) = true := by
    decide +kernel
  obtain ⟨g, hload, htest⟩ := Outcome.exists_of_passes hpasses
  obtain ⟨hresolved, hnames⟩ := Bool.and_eq_true_iff.mp htest
  obtain ⟨hput, htake⟩ := Bool.and_eq_true_iff.mp hresolved
  obtain ⟨hactor, hlocation⟩ := Bool.and_eq_true_iff.mp hnames
  obtain ⟨c, hparsed, -, -⟩ := Resolution.exists_of_objects? (eq_of_beq hput)
  have hwhich := Resolution.eq_which_of_choice? (eq_of_beq htake)
  have houtcome : (g.command 9 "take lamp").1.outcome = .ambiguous [⟨3⟩, ⟨4⟩] := by
    rw [command_of_which hwhich]
  obtain ⟨-, hunchanged, -, -⟩ := g.command_touches_slots_only 9 "take lamp"
  obtain ⟨-, -, hfilled, hmeans⟩ :=
    g.command_touches_slots_only 9 "put the brass lamp in the sack"
  obtain ⟨w, hcommand, -, -, hdirect, -⟩ := hfilled c hparsed
  have hactor' : canonical g.reader.actorGlobal ∉ ["PRSA", "PRSO", "PRSI"] := by
    rw [eq_of_beq hactor]
    decide
  have hlocation' : canonical g.reader.locationGlobal ∉ ["PRSA", "PRSO", "PRSI"] := by
    rw [eq_of_beq hlocation]
    decide
  refine ⟨g, hload, houtcome, (hunchanged _ houtcome).2, c, hparsed, ⟨w, hdirect, hcommand⟩, ?_⟩
  intro s
  rw [hmeans hactor' hlocation' g.machine.world _ rfl, hparsed]

-- an actor that is read from a slot is another one when the slot is filled anew
example : (load .standard 9 furnishedAttic).passes (fun g =>
    let i : CommandReader := { g.reader with actorGlobal := "prso", locationGlobal := "PRSI" }
    let means (s : CommandSlots) :=
      (i.resolve (g.machine.world.withSlots s) "put the brass lamp in the sack").objects?
    means .none == none && means ⟨.bool false, g.machine.world.global "WINNER", .bool false⟩ ==
      some (some ⟨3⟩, some ⟨2⟩)) = true := by
  decide +kernel

/-! ### Any number of lines -/

/-- A game with other command slots. -/
def withSlots (s : CommandSlots) (g : Game) : Game :=
  { g with machine := { g.machine with world := g.machine.world.withSlots s } }

/-- Carries out lines one after another: all replies, and the game after them. -/
def commandAll (g : Game) (fuel : Nat) : List String → List Reply × Game
  | [] => ([], g)
  | input :: inputs =>
    let (reply, next) := g.command fuel input
    let (replies, last) := next.commandAll fuel inputs
    (reply :: replies, last)

theorem mention_withSlots (s : CommandSlots) (w : World) :
    mention (w.withSlots s) = mention w := by
  funext o
  have hproperty : (w.withSlots s).property o "DESC" = w.property o "DESC" := rfl
  have hname : (w.withSlots s).objectName o = w.objectName o := rfl
  rw [mention, mention, hproperty, hname]

/-- A reply has the machine of the run, and not that of the game before. -/
theorem reply_withSlots (s : CommandSlots) (g : Game) (ended : Outcome Value × Machine) :
    (g.withSlots s).reply ended = g.reply ended := by
  obtain ⟨outcome, m⟩ := ended
  cases outcome <;> rfl

/-- Two games that differ only in their slots answer a line alike.  A command fills the slots anew,
so they are equal after it, and after any other line they are as before. -/
theorem command_withSlots {g : Game} (h : g.reader.IgnoresSlots) (s : CommandSlots) (fuel : Nat)
    (input : String) :
    (g.withSlots s).command fuel input = g.command fuel input ∨
    ∃ reply, g.command fuel input = (reply, g) ∧
      (g.withSlots s).command fuel input = (reply, g.withSlots s) := by
  have hmeans : (g.withSlots s).reader.resolve (g.withSlots s).machine.world input =
      g.reader.resolve g.machine.world input := h.resolve_withSlots s g.machine.world input
  cases hresolve : g.reader.resolve g.machine.world input with
  | parsed c =>
    rw [command_of_parsed hresolve, command_of_parsed (hmeans.trans hresolve)]
    -- the command overwrites the slots, and both games have the same world from there on
    exact .inl (reply_withSlots s g _)
  | notUnderstood phrase =>
    rw [command_of_notUnderstood hresolve, command_of_notUnderstood (hmeans.trans hresolve)]
    exact .inr ⟨_, rfl, rfl⟩
  | which phrase candidates =>
    rw [command_of_which hresolve, command_of_which (hmeans.trans hresolve)]
    have hquestion : question (g.withSlots s).machine.world phrase candidates =
        question g.machine.world phrase candidates := by
      show question (g.machine.world.withSlots s) phrase candidates = _
      rw [question, question, mention_withSlots]
    rw [hquestion]
    exact .inr ⟨_, rfl, rfl⟩

/-- The replies to a player's lines do not depend on the slots from before. -/
theorem commandAll_withSlots {g : Game} (h : g.reader.IgnoresSlots) (s : CommandSlots) (fuel : Nat)
    (inputs : List String) :
    ((g.withSlots s).commandAll fuel inputs).1 = (g.commandAll fuel inputs).1 := by
  induction inputs with
  | nil => rfl
  | cons input inputs ih =>
    rw [commandAll, commandAll]
    -- either the games are equal from here on, or the line has left both as they were
    rcases command_withSlots h s fuel input with hsame | ⟨reply, hcommand, hother⟩
    · rw [hsame]
    · rw [hcommand, hother]
      exact congrArg (reply :: ·) ih

end Game

end TextAdventure
