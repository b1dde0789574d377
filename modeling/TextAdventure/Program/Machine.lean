import TextAdventure.Program.Frame
import TextAdventure.Program.Operation
import TextAdventure.Program.Random
import TextAdventure.Program.Routine
import TextAdventure.World.Tree

/-!
The machine that runs programs.

A program runs against a `Library`, which it cannot change — operations, routines, the limit on
nested calls, the room for a table — and a `Machine`, which it can: the world, the variables of
the current routine, the text printed so far, the random numbers, the number of active calls, and
whether the game asked to stop.

Main statements:
* `Outcome` — a value, a signal on its way to its boundary, a failure, or no answer for lack of
  something;
* `Run` — an action on the machine; whatever the outcome, the changes made so far stay;
* `Run.random_bounds` — a random number keeps to its limit.

Design notes.  A signal and a failure both end a sequence of actions at once (`Run.bind`), and
only the boundaries in `Run.collapse`, `Run.withinBlock` and `Run.withinCall` look at them.
Nothing looks at a shortage, which ends all of a program.  Of the two, only a lack of fuel goes
away with more fuel.
-/

namespace TextAdventure

/-- A transfer of control out of a routine or a block. -/
inductive Signal where
  | returnTrue
  | returnFalse
  | exit (value : Value)
  | leave (value : Value)
  deriving Repr

/-- What a signal makes of the routine or block that it ends. -/
def Signal.value : Signal → Value
  | .returnTrue => .bool true
  | .returnFalse => .bool false
  | .exit value => value
  | .leave value => value

/-- What there was not enough of: fuel to come to an end, or memory for a number of cells that
were asked for at one time. -/
inductive Shortage where
  | fuel
  | memory (cells : Nat)
  deriving DecidableEq, Repr

/-- How running something ended. -/
inductive Outcome (α : Type) where
  | done (a : α)
  | signal (s : Signal)
  | failed (f : Failure)
  | exhausted (what : Shortage)
  deriving Repr

/-- What a program cannot change while it runs: the operations and routines it can call, how
deep calls may nest, which global names the actor, and for how many cells memory can be had at
one time. -/
structure Library where
  operations : Registry
  routines : RoutineTable
  maxDepth : Nat
  actorGlobal : String
  maxCells : Nat
  deriving Repr

/-- How deep calls may nest unless something else is asked for. -/
def Library.defaultDepth : Nat := 256

/-- How many cells fit into memory unless it is known to be smaller: it has less than `2 ^ 63`
bytes, and a cell takes sixteen of them or more. -/
def Library.defaultCells : Nat := (UInt64.size / 2 - 1) / 16

/-- The operations of the language and no routine. -/
def Library.standard : Library :=
  ⟨.standard, .empty, Library.defaultDepth, "WINNER", Library.defaultCells⟩

/-- What a program can change while it runs. -/
structure Machine where
  world : World
  frame : Frame
  output : String
  random : Generator
  depth : Nat
  quit : Bool

/-- The machine at the start: an empty world, and random numbers to come. -/
def Machine.initial (random : Generator) : Machine :=
  ⟨.empty, .topLevel, "", random, 0, false⟩

/-- An action on the machine. -/
def Run (α : Type) : Type := Machine → Outcome α × Machine

namespace Run

variable {α β : Type}

protected def pure (a : α) : Run α := fun m => (.done a, m)

/-- One action after another; a signal, a failure or a shortage ends the sequence. -/
protected def bind (act : Run α) (next : α → Run β) : Run β := fun m =>
  match act m with
  | (.done a, m) => next a m
  | (.signal s, m) => (.signal s, m)
  | (.failed f, m) => (.failed f, m)
  | (.exhausted what, m) => (.exhausted what, m)

instance : Monad Run where
  pure := Run.pure
  bind := Run.bind

/-- Ends with a failure. -/
def fail (fault : Fault) : Run α := fun m => (.failed (.ofFault fault), m)

/-- Ends with a signal. -/
def raise (s : Signal) : Run α := fun m => (.signal s, m)

/-- Ends without an answer, for lack of something. -/
def exhaust (what : Shortage) : Run α := fun m => (.exhausted what, m)

/-- A value, or the fault in its place. -/
def ofExcept : Except Fault α → Run α
  | .ok a => Run.pure a
  | .error fault => fail fault

/-! ### Reading and changing the machine -/

/-- Something read off the machine. -/
def read (f : Machine → α) : Run α := fun m => (.done (f m), m)

def modify (f : Machine → Machine) : Run Unit := fun m => (.done (), f m)

/-- Something read off the world. -/
def readWorld (f : World → α) : Run α := read fun m => f m.world

def modifyWorld (f : World → World) : Run Unit := modify fun m => { m with world := f m.world }

/-- A change of the world that may fail, and then changes nothing. -/
def changeWorld (f : World → Except Fault World) : Run Unit := fun m =>
  match f m.world with
  | .ok world => (.done (), { m with world := world })
  | .error fault => (.failed (.ofFault fault), m)

def modifyFrame (f : Frame → Frame) : Run Unit := modify fun m => { m with frame := f m.frame }

/-- Appends text to what has been printed. -/
def print (text : String) : Run Unit := modify fun m => { m with output := m.output ++ text }

/-- Draws a random number between 1 and a limit; a limit below 1 counts as 1. -/
def random (limit : Int64) : Run Int64 := fun m =>
  let (n, random) := m.random.upTo (max limit.toInt 1).toNat
  (.done (Int64.ofNat n), { m with random := random })

/-- A draw is between 1 and its limit, and moves on in the stream of random numbers only. -/
theorem random_bounds (limit : Int64) (m : Machine) :
    ∃ n generator, random limit m = (.done n, { m with random := generator }) ∧
      1 ≤ n.toInt ∧ n.toInt ≤ max limit.toInt 1 := by
  have hpos : 1 ≤ (max limit.toInt 1).toNat := by omega
  obtain ⟨hone, hle⟩ := m.random.upTo_bounds hpos
  have hlimit := limit.toInt_lt
  have hfits : (m.random.upTo (max limit.toInt 1).toNat).1 < 2 ^ 63 := by omega
  refine ⟨Int64.ofNat (m.random.upTo (max limit.toInt 1).toNat).1, _, rfl, ?_⟩
  rw [Int64.toInt_ofNat_of_lt hfits]
  omega

/-! ### Boundaries -/

/-- Lets a signal become the value it stands for. -/
def collapse (act : Run Value) : Run Value := fun m =>
  match act m with
  | (.signal s, m) => (.done s.value, m)
  | ended => ended

/-- Runs a block in a scope of its own.  Leaving the block ends it with the value given. -/
def withinBlock (act : Run Value) : Run Value := fun m =>
  let (outcome, m) := act { m with frame := m.frame.openBlock }
  let m := { m with frame := m.frame.closeBlock }
  match outcome with
  | .signal (.leave value) => (.done value, m)
  | other => (other, m)

/-- Runs the body of a routine in a frame of its own, one call deeper.  A failure notes the
routine's name on its way out. -/
def withinCall (name : String) (act : Run Value) : Run Value := fun m =>
  let caller := m.frame
  let (outcome, m) := act { m with frame := .forRoutine name, depth := m.depth + 1 }
  let m := { m with frame := caller, depth := m.depth - 1 }
  match outcome with
  | .failed f => (.failed (f.inRoutine name), m)
  | other => (other, m)

/-- Repeats an action until it ends other than with a value. -/
def forever (act : Run Unit) : Nat → Run Value
  | 0 => exhaust .fuel
  | fuel + 1 => fun m =>
    match act m with
    | (.done _, m) => forever act fuel m
    | (.signal s, m) => (.signal s, m)
    | (.failed f, m) => (.failed f, m)
    | (.exhausted what, m) => (.exhausted what, m)

end Run

end TextAdventure
