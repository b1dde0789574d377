import TextAdventure.Proofs.Play.Reachable
import TextAdventure.Proofs.Program.Balance

/-!
Sequences of things done with a game.

* `Game.Action` — what can be done with a game in play;
* `Game.take`, `Game.takeAll` — one such action and several, with their answers;
* `bookkeeping_balanced` — evaluation and calls give back every scope, block and call they took,
  so between the actions of a session no call is under way, whatever failed before.

Design notes.  An answer is reduced to the values that it hands out and to the fault that it
reports.
-/

namespace TextAdventure

/-- What can be done with a game in play: the opening, a player's line, a call from outside, a text
to evaluate, and the evaluation of a node in a frame of one's own, which stays for the next. -/
inductive Game.Action where
  | start
  | command (input : String)
  | call (name : String) (args : List Value)
  | apply (callee : Value) (args : List Value)
  | evaluate (source : String)
  | useFrame (frame : Frame)
  | eval (node : Node)

/-- What an action hands out, and the fault it reports. -/
structure Answer where
  values : List Value
  fault : Option Fault

/-- The answer of a run. -/
def Outcome.answer : Outcome Value → Answer
  | .done value => ⟨[value], none⟩
  | .signal s => ⟨[s.value], none⟩
  | .failed f => ⟨[], some f.fault⟩
  | .exhausted _ => ⟨[], none⟩

/-- The answer to a player's line. -/
def CommandOutcome.answer : CommandOutcome → Answer
  | .performed value => ⟨[value], none⟩
  | .notUnderstood _ => ⟨[], none⟩
  | .ambiguous candidates => ⟨candidates.map .object, none⟩
  | .failed f => ⟨[], some f.fault⟩
  | .exhausted _ => ⟨[], none⟩

namespace Game

/-- The answer of a run, and the game after it. -/
def answering (ended : Outcome Value × Game) : Answer × Game := (ended.1.answer, ended.2)

/-- The answer of a reply, and the game after it. -/
def replying (ended : Reply × Game) : Answer × Game := (ended.1.outcome.answer, ended.2)

/-- Takes an action. -/
def take (g : Game) (fuel : Nat) : Action → Answer × Game
  | .start => replying (g.start fuel)
  | .command input => replying (g.command fuel input)
  | .call name args => answering (g.callRoutine fuel name args)
  | .apply callee args => answering (g.run (applyValue g.library fuel callee args))
  | .evaluate source => answering (g.evaluate fuel source)
  | .useFrame frame => (⟨[], none⟩, { g with machine := { g.machine with frame := frame } })
  | .eval node => answering (g.run (TextAdventure.eval g.library fuel node))

/-- Takes actions one after another. -/
def takeAll (g : Game) (fuel : Nat) : List Action → List Answer × Game
  | [] => ([], g)
  | action :: actions =>
    let (answer, g) := g.take fuel action
    let (answers, g) := g.takeAll fuel actions
    (answer :: answers, g)

theorem take_evolves (g : Game) (fuel : Nat) (action : Action) :
    g.machine.Evolves (g.take fuel action).2.machine := by
  cases action with
  | start => exact start_evolves g fuel
  | command input => exact command_evolves g fuel input
  | call name args => exact call_evolves g.library fuel name args g.machine
  | apply callee args => exact applyValue_evolves g.library fuel callee args g.machine
  | evaluate source => exact evalSource_evolves g.library fuel source g.machine
  | useFrame frame => exact ⟨.refl _, rfl⟩
  | eval node => exact eval_evolves g.library fuel node g.machine

theorem takeAll_evolves (g : Game) (fuel : Nat) (actions : List Action) :
    g.machine.Evolves (g.takeAll fuel actions).2.machine := by
  induction actions generalizing g with
  | nil => exact .refl _
  | cons action actions ih => exact (take_evolves g fuel action).trans (ih _)

theorem library_reply (g : Game) (ended : Outcome Value × Machine) :
    (g.reply ended).2.library = g.library := by
  rcases ended with ⟨_ | _ | _ | _, m⟩ <;> rfl

theorem library_take (g : Game) (fuel : Nat) (action : Action) :
    (g.take fuel action).2.library = g.library := by
  cases action with
  | start =>
    show (g.start fuel).2.library = g.library
    rw [start]
    split <;> exact library_reply _ _
  | command input =>
    show (g.command fuel input).2.library = g.library
    rw [command]
    split
    · exact library_reply _ _
    · rfl
    · rfl
  | _ => rfl

theorem library_takeAll (g : Game) (fuel : Nat) (actions : List Action) :
    (g.takeAll fuel actions).2.library = g.library := by
  induction actions generalizing g with
  | nil => rfl
  | cons action actions ih => exact (ih _).trans (library_take g fuel action)

end Game

/-- The books are balanced on every exit.  However the evaluation of a node ends, as many scopes
are open, as many blocks entered and as many calls under way as before; so it is with the calls
under way when a routine is called from outside.  After a game has been loaded, and after anything
that is then done with it, no call is under way, and calls may nest as deep as ever. -/
theorem bookkeeping_balanced (lib : Library) (fuel : Nat) :
    (∀ node m, (eval lib fuel node m).2.frame.scopes.length = m.frame.scopes.length ∧
      (eval lib fuel node m).2.frame.blockDepth = m.frame.blockDepth ∧
      (eval lib fuel node m).2.depth = m.depth) ∧
    (∀ name args m, (call lib fuel name args m).2.depth = m.depth) ∧
    ∀ settings loadFuel nodes g actions, load settings loadFuel nodes = .done g →
      (g.takeAll fuel actions).2.machine.depth = 0 ∧
      (g.takeAll fuel actions).2.library.maxDepth = g.library.maxDepth := by
  have ht := balance_transition lib
  refine ⟨fun node m => ?_, fun name args m => (ht.call fuel name args m).calls, ?_⟩
  · have hbalanced := ht.eval fuel node m
    exact ⟨hbalanced.scopes, hbalanced.blocks, hbalanced.calls⟩
  · intro settings loadFuel nodes g actions hload
    refine ⟨?_, congrArg Library.maxDepth (g.library_takeAll fuel actions)⟩
    calc (g.takeAll fuel actions).2.machine.depth
        = g.machine.depth := (g.takeAll_evolves fuel actions).calls
      _ = (Machine.initial settings.random).depth := (load_evolves hload).calls
      _ = 0 := rfl

/-- A routine that does nothing but call itself. -/
def selfCall : List Node :=
  [.form "ROUTINE" [.atom "AGAIN" default, .list [] default, .form "AGAIN" [] default] default]

/-- After a call that went too deep no call is under way. -/
theorem bookkeeping_balanced_selfCall :
    ∃ g : Game, load { Settings.standard with maxDepth := 3 } 9 selfCall = .done g ∧
      (g.takeAll 9 [.call "AGAIN" []]).1.map (·.fault) = [some (.callDepthExceeded 3)] ∧
      (g.takeAll 9 [.call "AGAIN" []]).2.machine.depth = 0 := by
  obtain ⟨g, hload, hfaults⟩ : ∃ g : Game,
      load { Settings.standard with maxDepth := 3 } 9 selfCall = .done g ∧
      (g.takeAll 9 [.call "AGAIN" []]).1.map (·.fault) = [some (.callDepthExceeded 3)] :=
    ⟨_, rfl, rfl⟩
  have hbalanced := (bookkeeping_balanced .standard 9).2.2 _ _ _ g [.call "AGAIN" []] hload
  exact ⟨g, hload, hfaults, hbalanced.1⟩

end TextAdventure
