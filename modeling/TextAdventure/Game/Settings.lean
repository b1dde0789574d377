import TextAdventure.Command.Resolve
import TextAdventure.Program.Eval

/-!
Games and how they are set up.

Main statements:
* `Host` — what a game is given by the machine that it is played on;
* `Settings` — what may be chosen before a game is loaded;
* `Game` — a loaded game, ready to be played.
-/

namespace TextAdventure

/-- What a game is given by the machine that it is played on: the random numbers for each seed,
and memory for a number of cells at one time. -/
structure Host where
  random : UInt64 → Generator
  maxCells : Nat

/-- The host on which every random number is one. -/
def Host.plain : Host := ⟨fun _ => .ones, Library.defaultCells⟩

/-- What may be chosen before a game is loaded. -/
structure Settings where
  host : Host
  seed : UInt64
  maxDepth : Nat
  trace : Bool
  startRoutine : String
  actorGlobal : String
  locationGlobal : String

/-- The settings on a host that hold unless others are chosen. -/
def Settings.onHost (host : Host) : Settings :=
  { host := host
    seed := 0
    maxDepth := Library.defaultDepth
    trace := false
    startRoutine := "GO"
    actorGlobal := "WINNER"
    locationGlobal := "HERE" }

/-- The settings that hold unless others are chosen. -/
def Settings.standard : Settings := .onHost .plain

/-- The random numbers of a game. -/
def Settings.random (s : Settings) : Generator := s.host.random s.seed

/-- A game: its settings, what its programs can use, the state they change, and what its player
can say. -/
structure Game where
  settings : Settings
  library : Library
  machine : Machine
  reader : CommandReader

/-- What programs can use before any routine is loaded. -/
def Settings.library (s : Settings) : Library :=
  { Library.standard with
    maxDepth := s.maxDepth
    actorGlobal := canonical s.actorGlobal
    maxCells := s.host.maxCells }

/-- The reader of commands over a vocabulary. -/
def Settings.reader (s : Settings) (vocabulary : Vocabulary) : CommandReader :=
  ⟨vocabulary, canonical s.actorGlobal, canonical s.locationGlobal⟩

end TextAdventure
