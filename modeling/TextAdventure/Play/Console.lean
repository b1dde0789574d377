import TextAdventure.Play.Session
import TextAdventure.Play.Status

/-!
The dialogue with the player.

The console takes what the player enters, line by line.  A line that leaves a form open is held
until the lines after it close the form.  A text that begins with `<` is evaluated, any other
is a command, and a blank one does nothing.

Main statements:
* `formDepth` — how many brackets a text leaves open;
* `Console.accept` — what one entry does;
* `Console.runEntries` — a whole dialogue, up to the end of the entries or of the game.
-/

namespace TextAdventure

/-! ### Open forms -/

/-- Where the scan for brackets is: between things, in a string, or in a comment. -/
inductive ScanMode where
  | code
  | string
  | comment
  deriving DecidableEq, Repr

/-- The brackets that a text opens less those that it closes, outside strings and comments.  A
backslash outside a comment hides the character after it. -/
def openBrackets : ScanMode → List Char → Int
  | _, [] => 0
  | .comment, c :: cs => openBrackets (if c = '\n' then .code else .comment) cs
  | _, ['\\'] => 0
  | mode, '\\' :: _ :: cs => openBrackets mode cs
  | .code, c :: cs =>
    if c = '"' then openBrackets .string cs
    else if c = ';' then openBrackets .comment cs
    else if c = '<' ∨ c = '(' then openBrackets .code cs + 1
    else if c = '>' ∨ c = ')' then openBrackets .code cs - 1
    else openBrackets .code cs
  | .string, c :: cs => openBrackets (if c = '"' then .code else .string) cs

/-- How many brackets a text leaves open: a number of 32 bits for a text of fewer than `2 ^ 31`
characters. -/
def formDepth (text : String) : Int := openBrackets .code text.toList

/-! ### The console -/

/-- What the player enters: a line, an interruption, or trouble with the terminal. -/
inductive Entry where
  | line (text : String)
  | interrupt
  | trouble (problem : String)
  deriving DecidableEq, Repr

/-- What one turn printed, what was entered for it, and what its text announces. -/
structure Turn where
  text : String
  entered : Option String
  status : Status
  deriving DecidableEq, Repr

/-- A turn that printed some text. -/
def Turn.ofText (text : String) (entered : Option String) : Turn :=
  ⟨text, entered, Status.ofText text⟩

/-- What comes of an entry. -/
inductive Reaction where
  | waiting
  | turn (t : Turn)
  | broken (f : Failure)
  | finished
  deriving Repr

/-- A game in play, with the lines of a form that is still open. -/
structure Console where
  game : Game
  pending : Option String
  prompt : String
  continuation : String

namespace Console

/-- A console at the start of a dialogue. -/
def ofGame (game : Game) : Console := ⟨game, none, "> ", ".. "⟩

/-- What the player is asked with. -/
def currentPrompt (c : Console) : String :=
  match c.pending with
  | none => c.prompt
  | some _ => c.continuation

/-- Evaluates a form: what it prints, and then its value. -/
def evaluateForm (g : Game) (fuel : Nat) (source : String) : String × Game :=
  let (outcome, g) := g.evaluate fuel source
  let (text, g) := g.takeOutput
  match outcome with
  | .done value => (Game.endLine text ++ value.display ++ "\n", g)
  | .signal s => (Game.endLine text ++ s.value.display ++ "\n", g)
  | .failed f => (text ++ Game.errorLine f, g)
  | .exhausted _ => (text, g)

/-- Carries out a text that is not blank. -/
def respond (g : Game) (fuel : Nat) (text : String) : String × Game :=
  if text.toList.head? = some '<' then evaluateForm g fuel text
  else
    let (reply, g) := g.command fuel text
    (reply.text, g)

/-- Carries out a complete text. -/
def complete (c : Console) (fuel : Nat) (text : String) : Console × Reaction :=
  let text := trim text
  if text.isEmpty then ({ c with pending := none }, .turn (.ofText "" none))
  else
    let (printed, game) := respond c.game fuel text
    ({ c with game := game, pending := none }, .turn (.ofText printed (some text)))

/-- What one entry does; no entry is the end of all entries. -/
def accept (c : Console) (fuel : Nat) : Option Entry → Console × Reaction
  | none =>
    match c.pending with
    | none => (c, .finished)
    | some _ => ({ c with pending := none }, .broken (.ofFault .unfinishedInput))
  | some (.trouble problem) => ({ c with pending := none }, .broken (.ofFault (.input problem)))
  | some .interrupt => ({ c with pending := none }, .turn (.ofText "" none))
  | some (.line line) =>
    let text :=
      match c.pending with
      | none => line
      | some before => before ++ "\n" ++ line
    if formDepth text ≤ 0 then c.complete fuel text
    else ({ c with pending := some text }, .waiting)

/-- Whether play stops after a turn. -/
def stopsAfter (c : Console) (t : Turn) : Bool := t.status.isOver || c.game.quitRequested

/-- The words that the player may be offered: verbs, directions, and words of objects, in
order and each once. -/
def keywords (g : Game) : List String :=
  let v := g.reader.vocabulary
  let words := v.rules.map (·.verb) ++ v.directions ++
    g.machine.world.objects.flatMap fun o => o.synonyms ++ o.adjectives
  (NameMap.ofList (words.map fun word => (word, ()))).names

/-! ### Whole dialogues -/

/-- What happened in a dialogue: the text printed, the prompts shown, what was entered, and the
entries left over. -/
structure Transcript where
  printed : String
  prompts : List String
  history : List String
  unread : List Entry
  deriving Repr

namespace Transcript

def empty : Transcript := ⟨"", [], [], []⟩

/-- Adds a prompt at the front. -/
def prompted (t : Transcript) (prompt : String) : Transcript :=
  { t with prompts := prompt :: t.prompts }

/-- Adds a turn at the front. -/
def after (t : Transcript) (turn : Turn) : Transcript :=
  { t with printed := turn.text ++ t.printed, history := turn.entered.toList ++ t.history }

end Transcript

/-- Plays entries up to their end, the end of the game, or trouble.  A dialogue that ends well
ends with a line break. -/
def playEntries (fuel : Nat) : Console → List Entry → Except Failure Unit × Console × Transcript
  | c, [] =>
    let prompt := c.currentPrompt
    match c.accept fuel none with
    | (c, .broken f) => (.error f, c, Transcript.empty.prompted prompt)
    | (c, _) => (.ok (), c, { Transcript.empty with printed := "\n" }.prompted prompt)
  | c, entry :: entries =>
    let prompt := c.currentPrompt
    match c.accept fuel (some entry) with
    | (c, .turn turn) =>
      if c.stopsAfter turn then
        (.ok (), c,
          (({ Transcript.empty with printed := "\n", unread := entries }).after turn).prompted
            prompt)
      else
        let (result, c, t) := playEntries fuel c entries
        (result, c, (t.after turn).prompted prompt)
    | (c, .broken f) =>
      (.error f, c, { Transcript.empty with unread := entries }.prompted prompt)
    | (c, _) =>
      let (result, c, t) := playEntries fuel c entries
      (result, c, t.prompted prompt)

/-- Plays entries, beginning with the opening of the game unless it is left out. -/
def runEntries (c : Console) (fuel : Nat) (banner : Bool) (entries : List Entry) :
    Except Failure Unit × Console × Transcript :=
  if banner then
    let (reply, game) := c.game.start fuel
    let (result, c, t) := playEntries fuel { c with game := game } entries
    (result, c, { t with printed := reply.text ++ t.printed })
  else playEntries fuel c entries

end Console

end TextAdventure
