import TextAdventure.CommandLine
import TextAdventure.Host.ChaCha
import TextAdventure.Host.Terminal

/-!
The program: reads its files and the player's lines, and prints what the game says.
-/

namespace TextAdventure

/-- More rounds and deeper nesting than any play can use up. -/
def playFuel : Nat := 1 <<< 60

/-- Prints at once. -/
def emit (text : String) : IO Unit := do
  let out ← IO.getStdout
  out.putStr text
  out.flush

/-- Reports a mistake; the program then ends with code 1. -/
def complain (message : String) : IO UInt32 := do
  let err ← IO.getStderr
  err.putStr (errorReport message)
  return 1

/-- The report of the system about a problem, with its code.  A code may come negated. -/
def systemReport (details : String) (code : UInt32) : String :=
  let code := min code.toNat (UInt32.size - code.toNat)
  match FileProblem.ofCode? code with
  | some problem => problem.message
  | none => details.capitalize ++ " (os error " ++ intText code ++ ")"

/-- Why a file cannot be read. -/
def fileProblem : IO.Error → String
  | .noFileOrDirectory _ code details => systemReport details code
  | .permissionDenied _ code details => systemReport details code
  | .inappropriateType _ code details => systemReport details code
  | .invalidArgument _ code details => systemReport details code
  | .userError _ => "stream did not contain valid UTF-8"
  | other => other.toString

/-- Reads a source file. -/
def readSource (name : String) : IO (Except String String) := do
  try
    return .ok (← IO.FS.readFile name)
  catch problem =>
    return .error (fileProblem problem)

/-- Reads all source files, or the first mistake. -/
def readSourceFiles : List String → IO (Except String (List (String × String)))
  | [] => return .ok []
  | name :: names => do
    match ← readSource name with
    | .error problem => return .error (name ++ ": " ++ problem)
    | .ok text =>
      match ← readSourceFiles names with
      | .ok rest => return .ok ((name, text) :: rest)
      | .error message => return .error message

/-- The next entry of the player, joining the lines of an open form. -/
partial def nextEntry (input : IO.FS.Stream) (before : List Char) : IO (Option Entry) := do
  let raw ← input.getLine
  if raw.isEmpty then return none
  match joinLine before raw.toList with
  | .inl text => return some (.line (String.ofList text))
  | .inr waiting => nextEntry input waiting

/-- Plays until the entries or the game end. -/
partial def playLoop (input : IO.FS.Stream) (c : Console) : IO UInt32 := do
  let entry ← nextEntry input []
  match c.accept playFuel entry with
  | (c, .turn turn) =>
    emit turn.text
    if c.stopsAfter turn then
      emit "\n"
      return 0
    else playLoop input c
  | (c, .waiting) => playLoop input c
  | (_, .broken f) => complain f.message
  | (_, .finished) =>
    emit "\n"
    return 0

/-- Loads a game and plays it. -/
def playGame (o : Options) : IO UInt32 := do
  match ← readSourceFiles o.files with
  | .error message => complain message
  | .ok sources =>
    match openGame o .chaCha playFuel sources with
    | .error message => complain message
    | .ok (shown, g) =>
      emit shown
      if o.batch then return 0
      else
        let (reply, g) := g.start playFuel
        emit reply.text
        playLoop (← IO.getStdin) (.ofGame g)

end TextAdventure

/-- Runs the program with its arguments. -/
def main (args : List String) : IO UInt32 :=
  match TextAdventure.plan args with
  | .present text => do
    TextAdventure.emit text
    return 0
  | .reject message => TextAdventure.complain message
  | .play o => TextAdventure.playGame o
