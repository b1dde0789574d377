import TextAdventure.Proofs.Command.Reference
import TextAdventure.Proofs.Play.Brackets

/-!
Turns of a dialogue.

A dialogue cuts the entries of the player into turns.  A turn takes the shortest run of lines in
whose text no form is open, and carries out this text once; or it is interrupted, and the lines
that it has taken are dropped.  The dialogue goes on from turn to turn, each in the game that the
one before has left, up to the end of the entries, to trouble, or to a turn that ends play.

* `IsRun` — the lines that one turn takes;
* `Round.Plays` — what a turn does;
* `Dialogue` — the turns of some entries, and how they end;
* `exists_dialogue` — all entries are turns and an ending;
* `Round.Plays.played_append` — what one turn does to a dialogue;
* `Dialogue.played_eq` — what comes of all turns;
* `Console.runEntries_turns` — a dialogue from its opening on.

Design notes.  While a form is open the console holds the text of the lines so far
(`Console.holding`), so a run of lines is an induction from its end (`Console.played_waiting`).
-/

namespace TextAdventure

/-! ### Runs of lines -/

/-- Lines as one text. -/
def joinLines (lines : List String) : String := "\n".intercalate lines

/-- Behind each of the lines a form is open in the text so far. -/
def StayOpen (lines : List String) : Prop :=
  ∀ front, front <+: lines → front ≠ [] → 0 < formDepth (joinLines front)

/-- The shortest run of lines, of one at least, in whose text no form is open. -/
structure IsRun (lines : List String) : Prop where
  ne_nil : lines ≠ []
  closed : formDepth (joinLines lines) ≤ 0
  shortest : ∀ front, front <+: lines → front ≠ lines → front ≠ [] →
    0 < formDepth (joinLines front)

theorem stayOpen_nil : StayOpen [] := fun _ hfront hne =>
  absurd (List.prefix_nil.mp hfront) hne

theorem StayOpen.concat {lines : List String} {line : String} (h : StayOpen lines)
    (hline : 0 < formDepth (joinLines (lines ++ [line]))) : StayOpen (lines ++ [line]) := by
  intro front hfront hne
  rcases List.prefix_concat_iff.mp hfront with rfl | hbefore
  · exact hline
  · exact h front hbefore hne

theorem StayOpen.of_append {lines more : List String} (h : StayOpen (lines ++ more)) :
    StayOpen lines :=
  fun front hfront => h front (hfront.trans (List.prefix_append lines more))

theorem StayOpen.isRun {lines : List String} {line : String} (h : StayOpen lines)
    (hline : formDepth (joinLines (lines ++ [line])) ≤ 0) : IsRun (lines ++ [line]) where
  ne_nil := by simp
  closed := hline
  shortest front hfront hother := by
    rcases List.prefix_concat_iff.mp hfront with rfl | hbefore
    · exact absurd rfl hother
    · exact h front hbefore

theorem IsRun.exists_concat {lines : List String} (h : IsRun lines) :
    ∃ front line, lines = front ++ [line] ∧ StayOpen front := by
  rcases List.eq_nil_or_concat lines with hnil | ⟨front, line, hconcat⟩
  · exact absurd hnil h.ne_nil
  · rw [List.concat_eq_append] at hconcat
    subst hconcat
    refine ⟨front, line, rfl, fun before hfront => ?_⟩
    refine h.shortest before (hfront.trans (List.prefix_append front [line])) ?_
    rintro rfl
    have hlength := hfront.length_le
    simp at hlength

theorem joinLines_concat {lines : List String} (h : lines ≠ []) (line : String) :
    joinLines (lines ++ [line]) = joinLines lines ++ "\n" ++ line := by
  rw [joinLines, String.intercalate_append_of_ne_nil h (List.cons_ne_nil _ _),
    String.intercalate_singleton]
  rfl

/-! ### Turns and dialogues -/

/-- A turn of a dialogue: the entries that it takes, the game before it, what comes of it, and the
game behind it. -/
structure Round where
  taken : List Entry
  before : Game
  turn : Turn
  after : Game

/-- What a turn does.  The text of a run of lines is trimmed and carried out once: as a form if it
begins with `<`, and else as a command.  A blank text does nothing, and neither does a turn that is
interrupted. -/
inductive Round.Plays (fuel : Nat) : Round → Prop
  | form {lines : List String} {text : String} {g : Game} (hrun : IsRun lines)
      (htext : trim (joinLines lines) = text) (hform : text.toList.head? = some '<') :
      Plays fuel ⟨lines.map .line, g, .ofText (Console.evaluateForm g fuel text).1 (some text),
        (Console.evaluateForm g fuel text).2⟩
  | command {lines : List String} {text : String} {g : Game} (hrun : IsRun lines)
      (htext : trim (joinLines lines) = text) (hblank : text ≠ "")
      (hform : text.toList.head? ≠ some '<') :
      Plays fuel ⟨lines.map .line, g, .ofText (g.command fuel text).1.text (some text),
        (g.command fuel text).2⟩
  | blank {lines : List String} {g : Game} (hrun : IsRun lines)
      (htext : trim (joinLines lines) = "") : Plays fuel ⟨lines.map .line, g, .ofText "" none, g⟩
  | interrupted {lines : List String} {g : Game} (hopen : StayOpen lines) :
      Plays fuel ⟨lines.map .line ++ [.interrupt], g, .ofText "" none, g⟩

/-- Whether play ends with a turn: its text announces it, or the game is to be left. -/
def Round.EndsPlay (round : Round) : Prop :=
  round.turn.status.isOver = true ∨ round.after.quitRequested = true

instance (round : Round) : Decidable round.EndsPlay := inferInstanceAs (Decidable (_ ∨ _))

/-- How a dialogue ends: play is over, the entries are finished, they are cut off while a form is
open, or there is trouble. -/
inductive Ending where
  | stopped (unread : List Entry)
  | finished
  | cutOff (lines : List String)
  | trouble (lines : List String) (problem : String) (unread : List Entry)

/-- Entries are cut into turns, each in the game that the one before has left, and an ending.  Play
goes on behind every turn but one that ends it. -/
inductive Dialogue (fuel : Nat) : Game → List Entry → List Round → Ending → Prop
  | finished (g : Game) : Dialogue fuel g [] [] .finished
  | cutOff {lines : List String} (g : Game) (hlines : lines ≠ []) (hopen : StayOpen lines) :
      Dialogue fuel g (lines.map .line) [] (.cutOff lines)
  | trouble {lines : List String} (g : Game) (problem : String) (unread : List Entry)
      (hopen : StayOpen lines) :
      Dialogue fuel g (lines.map .line ++ .trouble problem :: unread) []
        (.trouble lines problem unread)
  | stopped {round : Round} (unread : List Entry) (hplays : round.Plays fuel)
      (hends : round.EndsPlay) :
      Dialogue fuel round.before (round.taken ++ unread) [round] (.stopped unread)
  | next {round : Round} {entries : List Entry} {rounds : List Round} {ending : Ending}
      (hplays : round.Plays fuel) (hgoes : ¬ round.EndsPlay)
      (hrest : Dialogue fuel round.after entries rounds ending) :
      Dialogue fuel round.before (round.taken ++ entries) (round :: rounds) ending

theorem Round.Plays.taken_ne_nil {fuel : Nat} {round : Round} (h : round.Plays fuel) :
    round.taken ≠ [] := by
  cases h with
  | form hrun => simpa using hrun.ne_nil
  | command hrun => simpa using hrun.ne_nil
  | blank hrun => simpa using hrun.ne_nil
  | interrupted => simp

/-- A text that is carried out is a turn. -/
theorem IsRun.exists_plays {lines : List String} (h : IsRun lines) (fuel : Nat) (g : Game) :
    ∃ round : Round, round.Plays fuel ∧ round.taken = lines.map .line ∧ round.before = g := by
  by_cases hblank : trim (joinLines lines) = ""
  · exact ⟨_, .blank h hblank, rfl, rfl⟩
  by_cases hform : (trim (joinLines lines)).toList.head? = some '<'
  · exact ⟨_, .form h rfl hform, rfl, rfl⟩
  · exact ⟨_, .command h rfl hblank hform, rfl, rfl⟩

/-- What entries begin with, behind lines that leave a form open. -/
inductive Begins (held : List String) : List Entry → Prop
  | run (more : List String) (rest : List Entry) (hrun : IsRun (held ++ more)) :
      Begins held (more.map .line ++ rest)
  | interrupt (more : List String) (rest : List Entry) (hopen : StayOpen (held ++ more)) :
      Begins held (more.map .line ++ .interrupt :: rest)
  | trouble (more : List String) (problem : String) (rest : List Entry)
      (hopen : StayOpen (held ++ more)) : Begins held (more.map .line ++ .trouble problem :: rest)
  | stop (more : List String) (hopen : StayOpen (held ++ more)) : Begins held (more.map .line)

theorem begins {held : List String} (h : StayOpen held) (entries : List Entry) :
    Begins held entries := by
  induction entries generalizing held with
  | nil => exact .stop [] (by rwa [List.append_nil])
  | cons entry entries ih =>
    cases entry with
    | interrupt => exact .interrupt [] entries (by rwa [List.append_nil])
    | trouble problem => exact .trouble [] problem entries (by rwa [List.append_nil])
    | line text =>
      by_cases hclosed : formDepth (joinLines (held ++ [text])) ≤ 0
      · exact .run [text] entries (h.isRun hclosed)
      · have hconcat : ∀ more, held ++ [text] ++ more = held ++ text :: more := by simp
        cases ih (h.concat (Int.not_le.mp hclosed)) with
        | run more rest hrun => exact .run (text :: more) rest (hconcat more ▸ hrun)
        | interrupt more rest hopen => exact .interrupt (text :: more) rest (hconcat more ▸ hopen)
        | trouble more problem rest hopen =>
          exact .trouble (text :: more) problem rest (hconcat more ▸ hopen)
        | stop more hopen => exact .stop (text :: more) (hconcat more ▸ hopen)

/-- All entries are turns and an ending. -/
theorem exists_dialogue (fuel : Nat) (g : Game) (entries : List Entry) :
    ∃ rounds ending, Dialogue fuel g entries rounds ending := by
  induction hn : entries.length using Nat.strongRecOn generalizing g entries with
  | ind n ih =>
    -- behind a turn the entries are fewer
    have hturn : ∀ (round : Round) (rest : List Entry), round.Plays fuel →
        entries = round.taken ++ rest → round.before = g →
        ∃ rounds ending, Dialogue fuel g entries rounds ending := by
      rintro round rest hplays rfl rfl
      by_cases hends : round.EndsPlay
      · exact ⟨_, _, .stopped rest hplays hends⟩
      have hshorter : rest.length < n := by
        have hpos := List.length_pos_of_ne_nil hplays.taken_ne_nil
        rw [← hn, List.length_append]
        omega
      obtain ⟨rounds, ending, hrest⟩ := ih rest.length hshorter round.after rest rfl
      exact ⟨_, _, .next hplays hends hrest⟩
    cases begins stayOpen_nil entries with
    | run lines rest hrun =>
      obtain ⟨round, hplays, htaken, hbefore⟩ := hrun.exists_plays fuel g
      exact hturn round rest hplays (by rw [htaken]; rfl) hbefore
    | interrupt lines rest hopen =>
      exact hturn _ rest (.interrupted hopen) (by simp) rfl
    | trouble lines problem rest hopen => exact ⟨_, _, .trouble g problem rest hopen⟩
    | stop lines hopen =>
      by_cases hlines : lines = []
      · rw [hlines]
        exact ⟨_, _, .finished g⟩
      · exact ⟨_, _, .cutOff g hlines hopen⟩

/-! ### One turn -/

namespace Console

section Holding

variable (c : Console) (fuel : Nat)

/-- The text that is held for lines that leave a form open. -/
def heldText : List String → Option String
  | [] => none
  | line :: lines => some (joinLines (line :: lines))

theorem heldText_concat (lines : List String) (line : String) :
    heldText (lines ++ [line]) = some (joinLines (lines ++ [line])) := by
  cases lines <;> rfl

/-- A console that holds lines. -/
def holding (lines : List String) : Console := { c with pending := heldText lines }

theorem holding_nil (hc : c.pending = none) : c.holding [] = c := by
  rw [holding, heldText, ← hc]

theorem game_holding (lines : List String) : (c.holding lines).game = c.game := rfl

theorem textWith_holding (lines : List String) (line : String) :
    (c.holding lines).textWith line = joinLines (lines ++ [line]) := by
  cases lines with
  | nil => exact String.intercalate_singleton.symm
  | cons first lines =>
    rw [joinLines_concat (List.cons_ne_nil _ _)]
    rfl

/-- A line that leaves a form open is held with those before it. -/
theorem accept_of_open {lines : List String} {line : String}
    (h : 0 < formDepth (joinLines (lines ++ [line]))) :
    (c.holding lines).accept fuel (some (.line line)) =
      (c.holding (lines ++ [line]), .waiting) := by
  rw [accept_line, textWith_holding, if_neg (Int.not_le.mpr h), holding, holding, heldText_concat]

/-- The last line of a run completes its text. -/
theorem accept_of_isRun {front : List String} {line : String} (h : IsRun (front ++ [line])) :
    (c.holding front).accept fuel (some (.line line)) =
      (c.holding front).complete fuel (joinLines (front ++ [line])) := by
  rw [accept_line, textWith_holding, if_pos h.closed]

theorem complete_of_blank {text : String} (h : trim text = "") :
    c.complete fuel text = ({ c with pending := none }, .turn (.ofText "" none)) := by
  rw [complete, h]
  rfl

theorem complete_of_ne {text : String} (h : trim text ≠ "") :
    c.complete fuel text =
      ({ c with game := (respond c.game fuel (trim text)).2, pending := none },
        .turn (.ofText (respond c.game fuel (trim text)).1 (some (trim text)))) := by
  rw [complete, if_neg (by simpa using h)]

end Holding

end Console

/-- The last entry of a turn comes while the lines before it are held, and the turn is what comes
of it. -/
theorem Round.Plays.exists_last {fuel : Nat} {round : Round} (h : round.Plays fuel) :
    ∃ front entry, round.taken = front.map .line ++ [entry] ∧ StayOpen front ∧
      ∀ c : Console, c.game = round.before → (c.holding front).accept fuel (some entry) =
        ({ c with game := round.after, pending := none }, .turn round.turn) := by
  cases h with
  | form hrun htext hform =>
    obtain ⟨front, line, rfl, hopen⟩ := hrun.exists_concat
    refine ⟨front, .line line, List.map_append, hopen, ?_⟩
    rintro c rfl
    subst htext
    have hblank : trim (joinLines (front ++ [line])) ≠ "" := by
      intro hnone
      rw [hnone] at hform
      cases hform
    rw [c.accept_of_isRun fuel hrun, Console.complete_of_ne _ _ hblank, Console.respond,
      if_pos hform, Console.game_holding]
    rfl
  | command hrun htext hblank hform =>
    obtain ⟨front, line, rfl, hopen⟩ := hrun.exists_concat
    refine ⟨front, .line line, List.map_append, hopen, ?_⟩
    rintro c rfl
    subst htext
    rw [c.accept_of_isRun fuel hrun, Console.complete_of_ne _ _ hblank, Console.respond,
      if_neg hform, Console.game_holding]
    cases c.game.command fuel (trim (joinLines (front ++ [line])))
    rfl
  | blank hrun htext =>
    obtain ⟨front, line, rfl, hopen⟩ := hrun.exists_concat
    refine ⟨front, .line line, List.map_append, hopen, ?_⟩
    rintro c rfl
    rw [c.accept_of_isRun fuel hrun, Console.complete_of_blank _ _ htext]
    rfl
  | interrupted hopen =>
    refine ⟨_, _, rfl, hopen, ?_⟩
    rintro c rfl
    rfl

/-! ### All turns -/

namespace Console

/-- The prompts for a number of entries of one turn. -/
def asks (c : Console) : Nat → List String
  | 0 => []
  | n + 1 => c.prompt :: List.replicate n c.continuation

theorem asks_succ (c : Console) (lines : List String) :
    c.asks (lines.length + 1) = c.asks lines.length ++ [(c.holding lines).currentPrompt] := by
  cases lines with
  | nil => rfl
  | cons line lines =>
    rw [List.length_cons, asks, asks, List.replicate_succ', List.cons_append]
    rfl

/-- What comes of playing entries. -/
abbrev Played : Type := Except Failure Unit × Console × Transcript

/-- What comes of entries behind some prompts. -/
def Played.prompted (p : Played) (prompts : List String) : Played :=
  (p.1, p.2.1, { p.2.2 with prompts := prompts ++ p.2.2.prompts })

/-- What comes of entries behind a turn. -/
def Played.behind (p : Played) (turn : Turn) : Played := (p.1, p.2.1, p.2.2.after turn)

/-- Play of entries, as something that stands behind prompts and turns. -/
def played (c : Console) (fuel : Nat) (entries : List Entry) : Played := playEntries fuel c entries

theorem Played.prompted_prompted (p : Played) (prompts more : List String) :
    (p.prompted more).prompted prompts = p.prompted (prompts ++ more) := by
  simp [prompted]

theorem played_of_waiting {c c' : Console} {fuel : Nat} {entry : Entry}
    (h : c.accept fuel (some entry) = (c', .waiting)) (rest : List Entry) :
    c.played fuel (entry :: rest) = (c'.played fuel rest).prompted [c.currentPrompt] := by
  rw [played, playEntries, h]
  rfl

theorem played_of_turn {c c' : Console} {fuel : Nat} {entry : Entry} {turn : Turn}
    (h : c.accept fuel (some entry) = (c', .turn turn)) (rest : List Entry) :
    c.played fuel (entry :: rest) = Played.prompted (Played.behind
      (if c'.stopsAfter turn then (.ok (), c', ⟨"\n", [], [], rest⟩) else c'.played fuel rest) turn)
      [c.currentPrompt] := by
  rw [played, playEntries, h]
  dsimp only
  split <;> rfl

theorem played_nil_of_none {c : Console} (hc : c.pending = none) (fuel : Nat) :
    c.played fuel [] = (.ok (), c, ⟨"\n", [c.prompt], [], []⟩) := by
  rw [played, playEntries, currentPrompt, accept, hc]
  rfl

theorem played_nil_of_some {c : Console} {text : String} (hc : c.pending = some text) (fuel : Nat) :
    c.played fuel [] = (.error (.ofFault .unfinishedInput), { c with pending := none },
      ⟨"", [c.currentPrompt], [], []⟩) := by
  rw [played, playEntries, accept, hc]
  rfl

theorem played_trouble (c : Console) (fuel : Nat) (problem : String) (rest : List Entry) :
    c.played fuel (.trouble problem :: rest) =
      (.error (.ofFault (.input problem)), { c with pending := none },
        ⟨"", [c.currentPrompt], [], rest⟩) := rfl

/-- Lines that are held are dropped where no turn comes of them. -/
theorem prompted_broken {c : Console} (hc : c.pending = none) (lines : List String) (f : Failure)
    (unread : List Entry) :
    Played.prompted (.error f, { c.holding lines with pending := none },
        ⟨"", [(c.holding lines).currentPrompt], [], unread⟩) (c.asks lines.length) =
      (.error f, c, ⟨"", c.asks (lines.length + 1), [], unread⟩) := by
  rw [Played.prompted, asks_succ]
  congr 2
  rw [holding, ← hc]

/-- Lines that leave a form open are held, one behind the other. -/
theorem played_waiting {c : Console} (hc : c.pending = none) (fuel : Nat) {lines : List String}
    (hopen : StayOpen lines) (rest : List Entry) :
    c.played fuel (lines.map .line ++ rest) =
      ((c.holding lines).played fuel rest).prompted (c.asks lines.length) := by
  induction lines using List.reverseRecOn generalizing rest with
  | nil =>
    rw [c.holding_nil hc]
    rfl
  | append_singleton lines line ih =>
    have hline : 0 < formDepth (joinLines (lines ++ [line])) :=
      hopen _ (List.prefix_refl _) (by simp)
    have hstep := played_of_waiting (c.accept_of_open fuel hline) rest
    rw [List.map_append, List.append_assoc, ih hopen.of_append, List.length_append,
      List.length_singleton, asks_succ, ← Played.prompted_prompted]
    exact congrArg (Played.prompted · _) hstep

end Console

/-- What a turn does to a dialogue. -/
theorem Round.Plays.played_append {fuel : Nat} {round : Round} (h : round.Plays fuel) {c : Console}
    (hc : c.pending = none) (hgame : c.game = round.before) (rest : List Entry) :
    c.played fuel (round.taken ++ rest) = Console.Played.prompted (Console.Played.behind
      (if round.EndsPlay then (.ok (), { c with game := round.after }, ⟨"\n", [], [], rest⟩)
      else Console.played { c with game := round.after } fuel rest) round.turn)
      (c.asks round.taken.length) := by
  obtain ⟨front, entry, htaken, hopen, hlast⟩ := h.exists_last
  have hafter := Console.played_of_turn (hlast c hgame) rest
  have hends : Console.stopsAfter { c with game := round.after } round.turn = true ↔
      round.EndsPlay := by
    rw [Console.stopsAfter, Bool.or_eq_true]
    rfl
  have hsame : ({ c with game := round.after, pending := none } : Console) =
      { c with game := round.after } := by rw [hc]
  rw [hsame] at hafter
  simp only [hends] at hafter
  rw [htaken, List.append_assoc, Console.played_waiting hc fuel hopen, List.singleton_append,
    hafter, Console.Played.prompted_prompted, ← c.asks_succ, List.length_append, List.length_map,
    List.length_singleton]

/-- The entries that are in no turn. -/
def Ending.left : Ending → List Entry
  | .stopped unread => unread
  | .finished => []
  | .cutOff lines => lines.map .line
  | .trouble lines problem unread => lines.map .line ++ .trouble problem :: unread

/-- The entries that are not looked at. -/
def Ending.unread : Ending → List Entry
  | .stopped unread | .trouble _ _ unread => unread
  | .finished | .cutOff _ => []

/-- It is a mistake when the entries end while a form is open, and so is trouble. -/
def Ending.result : Ending → Except Failure Unit
  | .stopped _ | .finished => .ok ()
  | .cutOff _ => .error (.ofFault .unfinishedInput)
  | .trouble _ problem _ => .error (.ofFault (.input problem))

/-- What is printed at the end: a line break when all is well. -/
def Ending.printed : Ending → String
  | .stopped _ | .finished => "\n"
  | .cutOff _ | .trouble _ _ _ => ""

/-- The prompts for the entries that are in no turn and are looked at, and for the end. -/
def Ending.prompts (c : Console) : Ending → List String
  | .stopped _ => []
  | .finished => c.asks 1
  | .cutOff lines | .trouble lines _ _ => c.asks (lines.length + 1)

/-- The game behind some turns. -/
def gameAfter (g : Game) : List Round → Game
  | [] => g
  | round :: rounds => gameAfter round.after rounds

/-- What happens in a dialogue: the texts of all turns, one prompt for each entry that is looked at,
and the texts that were entered. -/
def Console.transcript (c : Console) (rounds : List Round) (ending : Ending) : Transcript where
  printed := String.join (rounds.map (·.turn.text)) ++ ending.printed
  prompts := rounds.flatMap (fun round => c.asks round.taken.length) ++ ending.prompts c
  history := rounds.flatMap (·.turn.entered.toList)
  unread := ending.unread

theorem Console.transcript_cons (c : Console) (round : Round) (rounds : List Round)
    (ending : Ending) (result : Except Failure Unit) (c' : Console) :
    Played.prompted (Played.behind (result, c', c.transcript rounds ending) round.turn)
      (c.asks round.taken.length) = (result, c', c.transcript (round :: rounds) ending) := by
  simp [Played.prompted, Played.behind, Transcript.after, transcript, String.join_cons,
    String.append_assoc]

namespace Dialogue

variable {fuel : Nat} {g : Game} {entries : List Entry} {rounds : List Round} {ending : Ending}

/-- No entry is left out, and none is taken twice. -/
theorem entries_eq (h : Dialogue fuel g entries rounds ending) :
    entries = rounds.flatMap Round.taken ++ ending.left := by
  induction h with
  | finished => rfl
  | cutOff => rfl
  | trouble => rfl
  | stopped => simp [Ending.left]
  | next _ _ _ ih => rw [List.flatMap_cons, List.append_assoc, ← ih]

/-- What comes of all turns. -/
theorem played_eq (h : Dialogue fuel g entries rounds ending) {c : Console}
    (hc : c.pending = none) (hgame : c.game = g) :
    c.played fuel entries =
      (ending.result, { c with game := gameAfter g rounds }, c.transcript rounds ending) := by
  induction h generalizing c with
  | finished g =>
    subst hgame
    exact Console.played_nil_of_none hc fuel
  | @cutOff lines g hlines hopen =>
    subst hgame
    have hheld : (c.holding lines).pending = some (joinLines lines) := by
      cases lines with
      | nil => exact absurd rfl hlines
      | cons line lines => rfl
    have hplayed := Console.played_waiting hc fuel hopen []
    rw [List.append_nil, Console.played_nil_of_some hheld] at hplayed
    rw [hplayed]
    exact Console.prompted_broken hc lines _ []
  | @trouble lines g problem unread hopen =>
    subst hgame
    rw [Console.played_waiting hc fuel hopen, Console.played_trouble]
    exact Console.prompted_broken hc lines _ unread
  | stopped unread hplays hends =>
    rw [hplays.played_append hc hgame, if_pos hends]
    exact c.transcript_cons _ [] (.stopped unread) _ _
  | @next round entries rounds ending hplays hgoes hrest ih =>
    have hplayed := @ih { c with game := round.after } hc rfl
    rw [hplays.played_append hc hgame, if_neg hgoes, hplayed]
    exact c.transcript_cons _ _ _ _ _

end Dialogue

namespace Console

/-- What is printed before the first turn, and the game that it is in. -/
def opening (c : Console) (fuel : Nat) (banner : Bool) : String × Game :=
  if banner then ((c.game.start fuel).1.text, (c.game.start fuel).2) else ("", c.game)

/-- What is printed before the first turn comes before what comes of all turns. -/
theorem runEntries_eq (c : Console) (fuel : Nat) (banner : Bool) (entries : List Entry)
    {result : Except Failure Unit} {c' : Console} {t : Transcript}
    (h : played { c with game := (c.opening fuel banner).2 } fuel entries = (result, c', t)) :
    c.runEntries fuel banner entries =
      (result, c', { t with printed := (c.opening fuel banner).1 ++ t.printed }) := by
  cases banner with
  | true =>
    rw [opening, if_pos rfl] at h ⊢
    rw [runEntries, if_pos rfl]
    generalize c.game.start fuel = opened at h ⊢
    obtain ⟨reply, game⟩ := opened
    dsimp only at h ⊢
    rw [← played, h]
  | false =>
    rw [opening, if_neg Bool.false_ne_true] at h ⊢
    rw [runEntries, if_neg Bool.false_ne_true, ← played]
    refine h.trans ?_
    rw [String.empty_append]

/-- The entries of a dialogue are cut into turns and an ending, none left out and none taken twice.
Every turn but one that is interrupted takes the shortest run of lines in whose text no form is
open, and carries out this text once.  The texts of all turns are printed, with one prompt for each
entry that is looked at.  Play goes on up to the first turn that announces its end or leaves the
game, and looks at no entry behind it; else up to the end of the entries, which is a mistake while a
form is open, or to trouble. -/
theorem runEntries_turns {c : Console} (hc : c.pending = none) (fuel : Nat) (banner : Bool)
    (entries : List Entry) :
    (∃ rounds ending, Dialogue fuel (c.opening fuel banner).2 entries rounds ending) ∧
    ∀ rounds ending, Dialogue fuel (c.opening fuel banner).2 entries rounds ending →
      entries = rounds.flatMap Round.taken ++ ending.left ∧
      c.runEntries fuel banner entries =
        (ending.result, { c with game := gameAfter (c.opening fuel banner).2 rounds },
          { c.transcript rounds ending with
            printed := (c.opening fuel banner).1 ++ (c.transcript rounds ending).printed }) := by
  refine ⟨exists_dialogue fuel _ entries, fun rounds ending h => ⟨h.entries_eq, ?_⟩⟩
  exact c.runEntries_eq fuel banner entries
    (h.played_eq (c := { c with game := (c.opening fuel banner).2 }) hc rfl)

/-- A form on two lines leaves the game, and the line behind it is not looked at. -/
theorem runEntries_turns_quit :
    ∃ g : Game, load .standard 9 furnishedAttic = .done g ∧ (ofGame g).pending = none ∧
      ∃ round : Round, round.taken = [.line "<QUIT", .line ">"] ∧ round.EndsPlay ∧
        Dialogue 9 g [.line "<QUIT", .line ">", .line "look"] [round] (.stopped [.line "look"]) ∧
        ∃ t, (ofGame g).runEntries 9 false [.line "<QUIT", .line ">", .line "look"] =
            (.ok (), { ofGame g with game := round.after }, t) ∧
          t.prompts = ["> ", ".. "] ∧ t.history = ["<QUIT\n>"] ∧ t.unread = [.line "look"] := by
  have hpasses : (load .standard 9 furnishedAttic).passes
      (fun g => (evaluateForm g 9 "<QUIT\n>").2.quitRequested) = true := by
    decide +kernel
  obtain ⟨g, hload, hquit⟩ := Outcome.exists_of_passes hpasses
  have hopen : StayOpen ["<QUIT"] := stayOpen_nil.concat (by decide)
  have hplays : Round.Plays 9 ⟨[.line "<QUIT", .line ">"], g,
      .ofText (evaluateForm g 9 "<QUIT\n>").1 (some "<QUIT\n>"),
      (evaluateForm g 9 "<QUIT\n>").2⟩ :=
    .form (hopen.isRun (by decide)) (by decide) (by decide)
  have hdialogue : Dialogue 9 g [.line "<QUIT", .line ">", .line "look"] [_]
      (.stopped [.line "look"]) := .stopped [.line "look"] hplays (.inr hquit)
  obtain ⟨-, hrun⟩ := (runEntries_turns (rfl : (ofGame g).pending = none) 9 false
    [.line "<QUIT", .line ">", .line "look"]).2 _ _ hdialogue
  exact ⟨g, hload, rfl, _, rfl, .inr hquit, hdialogue, _, hrun, rfl, rfl, rfl⟩

end Console

end TextAdventure
