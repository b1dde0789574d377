import TextAdventure.Game.Load

/-!
Playing a game, one line at a time.

A command is offered to several routines in turn — the actor's, the location's, the one before
the action, those of the two objects, and the action itself — and the first that answers with
something truthy ends it.

Main statements:
* `Game.command` — carries out a player's line;
* `Game.start`, `Game.callRoutine`, `Game.evaluate` — the opening, and ways in for tools;
* `Game.listing` — the whole world as text.

Design notes.  A failure ends only the command in which it happens; what was changed and printed
before it stays.
-/

namespace TextAdventure

/-- How a player's line ended. -/
inductive CommandOutcome where
  | performed (value : Value)
  | notUnderstood (phrase : String)
  | ambiguous (candidates : List ObjectId)
  | failed (f : Failure)
  | exhausted (what : Shortage)
  deriving Repr

/-- What a player's line printed, and how it ended. -/
structure Reply where
  text : String
  outcome : CommandOutcome
  deriving Repr

/-- Whether carrying out the line failed. -/
def Reply.isFailure (r : Reply) : Bool :=
  match r.outcome with
  | .failed _ => true
  | _ => false

namespace Game

/-! ### Carrying out commands -/

/-- A routine that a command is offered to; the location's learns that the command begins. -/
structure Handler where
  routine : String
  toldBeginning : Bool
  deriving DecidableEq, Repr

/-- The routine of an object. -/
def objectHandler (w : World) (toldBeginning : Bool) (o : Option ObjectId) : Option Handler :=
  ((o.bind w.object?).bind (·.action)).map (⟨·, toldBeginning⟩)

/-- The routines that a command is offered to, in order. -/
def handlers (settings : Settings) (w : World) (command : Command) : List Handler :=
  [ objectHandler w false (w.global settings.actorGlobal).object?,
    objectHandler w true (w.global settings.locationGlobal).object?,
    command.preAction.map (⟨·, false⟩),
    objectHandler w false command.indirect.object?,
    objectHandler w false command.direct.object?,
    command.action.map (⟨·, false⟩) ].filterMap id

/-- What a location is told when a command begins. -/
def beginning (w : World) : Value := (w.global? "M-BEG").getD (.int 1)

/-- Offers a command to a routine. -/
def offer (lib : Library) (fuel : Nat) (h : Handler) : Run Value := do
  let begin ← Run.readWorld beginning
  call lib fuel h.routine (if h.toldBeginning then [begin] else [])

/-- Offers a command to routines in order, up to the first truthy answer. -/
def perform (lib : Library) (fuel : Nat) : List Handler → Run Value
  | [] => pure (.bool false)
  | h :: hs => do
    let value ← offer lib fuel h
    if value.isTruthy then return value else perform lib fuel hs

/-- A text that ends with a line break, unless it is empty. -/
def endLine (text : String) : String :=
  if text.isEmpty || text.toList.getLast? == some '\n' then text else text ++ "\n"

/-- The line that reports a failure. -/
def errorLine (f : Failure) : String := "[error: " ++ f.message ++ "]\n"

/-- The reply to a run: what has been printed, taken off the machine, and how it ended. -/
def reply (g : Game) (ended : Outcome Value × Machine) : Reply × Game :=
  let (outcome, m) := ended
  let g := { g with machine := { m with output := "" } }
  match outcome with
  | .done value => (⟨m.output, .performed value⟩, g)
  | .signal s => (⟨m.output, .performed s.value⟩, g)
  | .failed f => (⟨endLine m.output ++ errorLine f, .failed f⟩, g)
  | .exhausted what => (⟨m.output, .exhausted what⟩, g)

/-- The answer to a line that is no command. -/
def puzzlement (g : Game) (phrase : String) : String :=
  if phrase.isEmpty then "I beg your pardon?\n"
  else
    let first := (blankSeparated phrase.toList).head?.map String.ofList
    if (first.map g.reader.vocabulary.isVerb).getD false then
      "That sentence isn't one I recognize.\n"
    else "I don't know the word \"" ++ phrase ++ "\".\n"

/-- How a question refers to an object. -/
def mention (w : World) (o : ObjectId) : String :=
  match w.property o "DESC" with
  | .string text => "the " ++ text
  | _ => "the " ++ lowercase (w.objectName o)

/-- The question which of several objects is meant. -/
def question (w : World) (phrase : String) (candidates : List ObjectId) : String :=
  "Which " ++ phrase ++ " do you mean: " ++ " or ".intercalate (candidates.map (mention w)) ++
    "?\n"

/-- Carries out a player's line. -/
def command (g : Game) (fuel : Nat) (input : String) : Reply × Game :=
  match g.reader.accept g.machine.world input with
  | (.parsed command, world) =>
    let chain := handlers g.settings world command
    g.reply (perform g.library fuel chain { g.machine with world := world })
  | (.notUnderstood phrase, _) => (⟨g.puzzlement phrase, .notUnderstood phrase⟩, g)
  | (.which phrase candidates, _) =>
    (⟨question g.machine.world phrase candidates, .ambiguous candidates⟩, g)

/-- Runs the start routine, if the game has it. -/
def start (g : Game) (fuel : Nat) : Reply × Game :=
  match g.library.routines.lookup? g.settings.startRoutine with
  | some _ => g.reply (call g.library fuel g.settings.startRoutine [] g.machine)
  | none => g.reply (.done (.bool false), g.machine)

/-! ### Ways in for tools -/

/-- Runs an action on the game's machine. -/
def run (g : Game) (act : Run Value) : Outcome Value × Game :=
  let (outcome, machine) := act g.machine
  (outcome, { g with machine := machine })

/-- Calls a routine. -/
def callRoutine (g : Game) (fuel : Nat) (name : String) (args : List Value) :
    Outcome Value × Game :=
  g.run (call g.library fuel name args)

/-- Evaluates the nodes of a text. -/
def evaluate (g : Game) (fuel : Nat) (source : String) : Outcome Value × Game :=
  g.run (evalSource g.library fuel source)

/-- Takes what has been printed. -/
def takeOutput (g : Game) : String × Game :=
  (g.machine.output, { g with machine := { g.machine with output := "" } })

/-- Whether the game asked to stop. -/
def quitRequested (g : Game) : Bool := g.machine.quit

/-! ### Listing -/

/-- One line for a name and its value. -/
def listEntry (indent : String) (entry : String × Value) : String :=
  indent ++ entry.1 ++ " = " ++ entry.2.inspect ++ "\n"

/-- An object in a listing: where it is, its flags and its properties. -/
def listObject (w : World) (o : GameObject) : String :=
  let place :=
    match o.parent with
    | some p => w.objectName p
    | none => "-"
  let flags := o.flags.toList.filterMap w.flags.name?
  "  " ++ o.name ++ " in " ++ place ++ " [" ++ " ".intercalate flags ++ "]\n" ++
    String.join (o.properties.toList.map (listEntry "    "))

/-- The whole world as text: objects in the order in which they came into being, then globals in
name order. -/
def listing (g : Game) : String :=
  let w := g.machine.world
  "Objects: " ++ intText w.objects.length ++ "\n" ++
    String.join (w.objects.map (listObject w)) ++
    "Globals: " ++ intText w.globals.size ++ "\n" ++
    String.join (w.globals.toList.map (listEntry "  "))

end Game

end TextAdventure
