import TextAdventure.Folder
import TextAdventure.Play.Console

/-!
The command line.

Main statements:
* `Options.parse` — what the arguments ask for, or the first mistake in them;
* `plan` — what is to be done: show a text, report a mistake, or play;
* `openGame` — loads the game and lists its world if asked to;
* `runCommandLine` — a whole run, given the files and what the player enters.
-/

namespace TextAdventure

/-- What the arguments ask for. -/
structure Options where
  files : List String
  batch : Bool
  help : Bool
  version : Bool
  seed : Option UInt64
  trace : Bool
  listWorld : Bool
  deriving DecidableEq, Repr

namespace Options

/-- What no arguments ask for. -/
def none : Options := ⟨[], false, false, false, Option.none, false, false⟩

/-- Reads a seed: digits, perhaps after a plus sign, for a number of 64 bits. -/
def readSeed? (text : String) : Option UInt64 :=
  let digits :=
    match text.toList with
    | '+' :: rest => rest
    | all => all
  if digits.isEmpty || !digits.all isDigit then Option.none
  else if digitsValue digits < UInt64.size then some (UInt64.ofNat (digitsValue digits))
  else Option.none

/-- Reads arguments in order. -/
def parseFrom (o : Options) : List String → Except String Options
  | [] => .ok o
  | "-h" :: rest => { o with help := true }.parseFrom rest
  | "--help" :: rest => { o with help := true }.parseFrom rest
  | "-V" :: rest => { o with version := true }.parseFrom rest
  | "--version" :: rest => { o with version := true }.parseFrom rest
  | "-b" :: rest => { o with batch := true }.parseFrom rest
  | "--batch" :: rest => { o with batch := true }.parseFrom rest
  | "--trace" :: rest => { o with trace := true }.parseFrom rest
  | "--dump-world" :: rest => { o with listWorld := true }.parseFrom rest
  | ["--seed"] => .error "--seed requires a value"
  | "--seed" :: value :: rest =>
    match readSeed? value with
    | some seed => { o with seed := some seed }.parseFrom rest
    | Option.none => .error ("invalid --seed value: " ++ value)
  | arg :: rest =>
    if arg.toList.head? = some '-' then .error ("unknown option: " ++ arg)
    else { o with files := o.files ++ [arg] }.parseFrom rest

/-- What the arguments ask for. -/
def parse (args : List String) : Except String Options := none.parseFrom args

/-- The settings for the game. -/
def settings (o : Options) (host : Host) : Settings :=
  { Settings.onHost host with trace := o.trace, seed := o.seed.getD 0 }

end Options

/-! ### Texts -/

def bold (text : String) : String := "\x1b[1m" ++ text ++ "\x1b[0m"

def versionText : String := "zilch 0.1.0\n"

def helpText : String :=
  bold "Zilch" ++ " - Interactive fiction interpreter\n\n" ++
  bold "USAGE:" ++ "\n" ++
  "    zilch [OPTIONS] FILES...\n\n" ++
  bold "ARGUMENTS:" ++ "\n" ++
  "    FILES...      Source files that make up the game\n\n" ++
  bold "OPTIONS:" ++ "\n" ++
  "    -h, --help         Print help information\n" ++
  "    -V, --version      Print version information\n" ++
  "    -b, --batch        Load files and exit (no play loop)\n" ++
  "    --seed N           Seed for RANDOM and PROB (default 0)\n\n" ++
  bold "DEBUG OPTIONS:" ++ "\n" ++
  "    --trace            Log every operation dispatch (set RUST_LOG=trace)\n" ++
  "    --dump-world       Dump world state after loading files\n\n" ++
  bold "EXAMPLES:" ++ "\n" ++
  "    zilch game.zil                  Load game.zil and play\n" ++
  "    zilch -b --dump-world game.zil  Check that game.zil loads\n" ++
  "    zilch --seed 42 a.zil b.zil     Load two files with a fixed seed\n\n" ++
  bold "WHILE PLAYING:" ++ "\n" ++
  "    <form>               Evaluate a form directly\n" ++
  "    Ctrl+D               Exit\n" ++
  "    Ctrl+C               Cancel current input\n"

/-- The report of a mistake. -/
def errorReport (message : String) : String := "\x1b[31mError: " ++ message ++ "\x1b[0m\n"

/-- The listing of a world under its heading. -/
def worldReport (g : Game) : String :=
  "\x1b[1;36m=== World State ===\x1b[0m\n" ++ g.listing ++ "\n"

/-! ### Runs -/

/-- What is to be done. -/
inductive Plan where
  | present (text : String)
  | reject (message : String)
  | play (options : Options)
  deriving Repr

/-- What the arguments lead to. -/
def plan (args : List String) : Plan :=
  match Options.parse args with
  | .error message => .reject message
  | .ok o =>
    if o.help then .present helpText
    else if o.version then .present versionText
    else if o.files.isEmpty then .reject "no source files given (try --help)"
    else .play o

/-- What a run printed, and with which code it ended. -/
structure RunResult where
  output : String
  errors : String
  exitCode : Nat
  deriving DecidableEq, Repr

namespace RunResult

def success (output : String) : RunResult := ⟨output, "", 0⟩

def failure (output message : String) : RunResult := ⟨output, errorReport message, 1⟩

end RunResult

/-- The sources of a game: each file's name and text, or the mistake that one cannot be read. -/
def gatherSources (folder : Folder) : List String → Except String (List (String × String))
  | [] => .ok []
  | name :: names =>
    match folder.read name with
    | .error problem => .error (name ++ ": " ++ problem.message)
    | .ok text =>
      match gatherSources folder names with
      | .ok rest => .ok ((name, text) :: rest)
      | .error message => .error message

/-- Loads a game and lists its world if asked to: the text printed, and the game. -/
def openGame (o : Options) (host : Host) (fuel : Nat) (sources : List (String × String)) :
    Except String (String × Game) :=
  match loadSources (o.settings host) fuel sources with
  | .done g => .ok (if o.listWorld then worldReport g else "", g)
  | .failed f => .error f.message
  | .signal _ => .error "internal error: signal while loading"
  | .exhausted _ => .error "internal error: loading did not end"

/-- A whole run, given the host, the files and what the player enters. -/
def runCommandLine (host : Host) (fuel : Nat) (args : List String) (folder : Folder)
    (entries : List Entry) : RunResult :=
  match plan args with
  | .present text => .success text
  | .reject message => .failure "" message
  | .play o =>
    match gatherSources folder o.files with
    | .error message => .failure "" message
    | .ok sources =>
      match openGame o host fuel sources with
      | .error message => .failure "" message
      | .ok (shown, g) =>
        if o.batch then .success shown
        else
          match (Console.ofGame g).runEntries fuel true entries with
          | (.ok _, _, t) => .success (shown ++ t.printed)
          | (.error f, _, t) => .failure (shown ++ t.printed) f.message

end TextAdventure
