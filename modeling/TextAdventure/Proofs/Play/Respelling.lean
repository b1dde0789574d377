import Mathlib
import TextAdventure.Play.Session
import TextAdventure.Proofs.Command.Synonyms

/-!
Spelling does not matter to a command.

The words of a line come out in one spelling, whatever the letter case and the punctuation of the
line, and they come out field by field: the words of a text that stands apart from its neighbours
are the same in a line as alone.  A command looks at nothing of its line but the words, and passes
over noise words.  So it is the same command, with the same reply and the same game after it, for
all lines that differ in letter case, punctuation and noise only.

* `splitBy_append_separator` — a separator cuts a text in two;
* `splitBy_cleanWord` — a line can be cleaned before it is cut into fields, or after;
* `inputWords_append_of_parted` — the words of two texts with nothing to join them;
* `inputWords_intercalate` — words written one behind the other are these words;
* `Respelled` — one change of the spelling of a line;
* `inputWords_spelling` — what words look like, and that spelling does not matter to a command.
-/

namespace TextAdventure

/-! ### Fields -/

/-- A separator cuts a text in two. -/
theorem splitBy_append_separator {separator : Char → Bool} {c : Char} (hc : separator c = true)
    (cs ds : List Char) :
    splitBy separator (cs ++ c :: ds) = splitBy separator cs ++ splitBy separator ds := by
  induction cs with
  | nil => simp [splitBy, hc]
  | cons d cs ih =>
    by_cases hd : separator d = true
    · simp [splitBy, hd, ih]
    · obtain ⟨field, fields, hsplit⟩ :=
        List.exists_cons_of_ne_nil (splitBy_ne_nil separator cs)
      simp [splitBy, hd, ih, hsplit]

theorem cleanWord_cons_of_isPunctuation {c : Char} (hc : isPunctuation c = true)
    (cs : List Char) : cleanWord (c :: cs) = cleanWord cs := by
  simp [cleanWord, hc]

theorem cleanWord_cons {c : Char} (hc : isPunctuation c = false) (cs : List Char) :
    cleanWord (c :: cs) = c.toUpper :: cleanWord cs := by
  simp [cleanWord, hc]

/-- Letters may be raised before the punctuation is dropped. -/
theorem cleanWord_eq_filter (cs : List Char) :
    cleanWord cs = (cs.map Char.toUpper).filter (! isPunctuation ·) := by
  have hkeeps : (fun c => ! isPunctuation c) ∘ Char.toUpper = fun c => ! isPunctuation c := by
    funext c
    exact congrArg not (toUpper_keeps (fun _ => IsLetter.isPunctuation) c)
  rw [cleanWord, List.filter_map, hkeeps]

theorem partsWords_of_isPunctuation {c : Char} (hc : isPunctuation c = true) :
    partsWords c = false := by
  rw [isPunctuation, List.contains_iff_mem] at hc
  have hnone : ['.', ',', '!', '?', ';', ':', '\''].all (! partsWords ·) = true := by decide
  simpa using List.all_eq_true.mp hnone c hc

/-- Cleaning a line neither makes nor removes what parts its words. -/
theorem splitBy_cleanWord (cs : List Char) :
    splitBy partsWords (cleanWord cs) = (splitBy partsWords cs).map cleanWord := by
  induction cs with
  | nil => rfl
  | cons c cs ih =>
    obtain ⟨field, fields, hsplit⟩ := List.exists_cons_of_ne_nil (splitBy_ne_nil partsWords cs)
    rw [hsplit, List.map_cons] at ih
    cases hc : isPunctuation c with
    | true =>
      have hparts := partsWords_of_isPunctuation hc
      simp [cleanWord_cons_of_isPunctuation hc, ih, splitBy, hparts, hsplit]
    | false =>
      have hupper : partsWords c.toUpper = partsWords c :=
        toUpper_keeps (fun _ => IsLetter.partsWords) c
      rw [cleanWord_cons hc, splitBy, splitBy, hupper, ih, hsplit]
      split
      · rfl
      · rw [List.map_cons, cleanWord_cons hc]

/-! ### Words -/

/-- The words of some fields of a line. -/
def fieldWords (fields : List (List Char)) : List String :=
  ((fields.map cleanWord).filter (! ·.isEmpty)).map String.ofList

theorem inputWords_eq (input : String) :
    inputWords input = fieldWords (splitBy partsWords input.toList) := rfl

theorem fieldWords_append (fields fields' : List (List Char)) :
    fieldWords (fields ++ fields') = fieldWords fields ++ fieldWords fields' := by
  simp [fieldWords]

theorem fieldWords_nil_cons (fields : List (List Char)) :
    fieldWords ([] :: fields) = fieldWords fields := rfl

/-- The words of a line are those of the line cleaned. -/
theorem inputWords_congr {a b : String} (h : cleanWord a.toList = cleanWord b.toList) :
    inputWords a = inputWords b := by
  rw [inputWords, inputWords, ← splitBy_cleanWord, ← splitBy_cleanWord, h]

/-- Nothing joins two texts: the one in front is empty or ends with what parts words, or the one
behind is empty or begins with it. -/
def Parted (a b : String) : Prop :=
  (∀ c ∈ a.toList.getLast?, partsWords c = true) ∨ ∀ c ∈ b.toList.head?, partsWords c = true

theorem Parted.of_getLast? {a : String} {c : Char} (ha : a.toList.getLast? = some c)
    (hc : partsWords c = true) (b : String) : Parted a b :=
  .inl fun d hd => by
    rw [ha] at hd
    cases hd
    exact hc

theorem Parted.of_head? {b : String} {c : Char} (hb : b.toList.head? = some c)
    (hc : partsWords c = true) (a : String) : Parted a b :=
  .inr fun d hd => by
    rw [hb] at hd
    cases hd
    exact hc

theorem inputWords_append_of_parted {a b : String} (h : Parted a b) :
    inputWords (a ++ b) = inputWords a ++ inputWords b := by
  rw [inputWords_eq, inputWords_eq a, inputWords_eq b, String.toList_append]
  rcases h with hfront | hbehind
  · rcases List.eq_nil_or_concat a.toList with hnil | ⟨cs, c, hconcat⟩
    · rw [hnil]
      rfl
    · rw [hconcat, List.concat_eq_append] at hfront ⊢
      have hc : partsWords c = true := hfront c (by simp)
      rw [List.append_assoc, List.singleton_append, splitBy_append_separator hc,
        splitBy_append_separator hc, fieldWords_append, fieldWords_append]
      exact congrArg (· ++ _) (List.append_nil _).symm
  · cases hb : b.toList with
    | nil =>
      rw [List.append_nil]
      exact (List.append_nil _).symm
    | cons c cs =>
      have hc : partsWords c = true := hbehind c (by rw [hb]; rfl)
      rw [splitBy_append_separator hc, fieldWords_append, splitBy, if_pos hc,
        fieldWords_nil_cons]

/-- A text between two others, none of them joined to another. -/
theorem inputWords_append_append {a n b : String} (hab : Parted a b) (han : Parted a n)
    (hnb : Parted n b) :
    inputWords (a ++ n ++ b) = inputWords a ++ inputWords n ++ inputWords b := by
  have hfront : Parted (a ++ n) b := by
    rcases hnb with hn | hb
    · cases hnil : n.toList with
      | nil =>
        rw [Parted, String.toList_append, hnil, List.append_nil]
        exact hab
      | cons c cs =>
        -- the last character of both texts is that of the second
        refine .inl fun d hd => hn d ?_
        rwa [String.toList_append, List.getLast?_append_of_ne_nil _ (by simp [hnil])] at hd
    · exact .inr hb
  rw [inputWords_append_of_parted hfront, inputWords_append_of_parted han]

theorem inputWords_space_append (rest : String) : inputWords (" " ++ rest) = inputWords rest :=
  inputWords_append_of_parted
    (.of_getLast? (by decide : " ".toList.getLast? = some ' ') rfl rest)

theorem inputWords_append_space (a b : String) :
    inputWords (a ++ " " ++ b) = inputWords a ++ inputWords b := by
  have hspace : Parted a (" " ++ b) :=
    .of_head? (by rw [String.toList_append]; rfl : (" " ++ b).toList.head? = some ' ') rfl a
  rw [String.append_assoc, inputWords_append_of_parted hspace, inputWords_space_append]

theorem inputWords_word {word : String} (h : IsInputWord word) : inputWords word = [word] := by
  have halone := inputWords_append h (by decide : StandsApart "")
  rwa [String.append_empty] at halone

/-- Words written one behind the other are these words. -/
theorem inputWords_intercalate {words : List String} (h : ∀ word ∈ words, IsInputWord word) :
    inputWords (" ".intercalate words) = words := by
  induction words with
  | nil => rfl
  | cons word words ih =>
    have hword := h word List.mem_cons_self
    cases words with
    | nil => rw [String.intercalate_singleton, inputWords_word hword]
    | cons next words =>
      rw [String.intercalate_cons_cons, inputWords_append_space, inputWords_word hword,
        ih fun w hw => h w (List.mem_cons_of_mem _ hw)]
      rfl

/-- A word holds no character that parts words, no punctuation and no small letter. -/
theorem IsInputWord.char {word : String} (h : IsInputWord word) {c : Char} (hc : c ∈ word.toList) :
    isBlank c = false ∧ c ≠ '"' ∧ isPunctuation c = false ∧ c.isLower = false := by
  obtain ⟨-, hparts, hclean⟩ := h.spelled
  have hpart := hparts c hc
  rw [partsWords, Bool.or_eq_false_iff] at hpart
  -- each character of the word is a raised one that is no punctuation
  rw [← hclean, cleanWord, List.mem_map] at hc
  obtain ⟨d, hd, rfl⟩ := hc
  have hkept := (List.mem_filter.mp hd).2
  refine ⟨hpart.1, by simpa using hpart.2, ?_, d.isLower_toUpper_eq_false⟩
  rw [toUpper_keeps fun _ => IsLetter.isPunctuation]
  simpa using hkept

/-! ### Respelling a line -/

/-- One change of the spelling of a line: noise is put in between words, the case of letters from A
to Z is changed, or punctuation is put in anywhere. -/
inductive Respelled (v : Vocabulary) : String → String → Prop
  | noise {a n b : String} (hab : Parted a b) (han : Parted a n) (hnb : Parted n b)
      (hnoise : ∀ word ∈ inputWords n, v.isNoise word = true) :
      Respelled v (a ++ b) (a ++ n ++ b)
  | letterCase {a b : String} (h : canonical a = canonical b) : Respelled v a b
  | punctuation {a marks b : String} (h : ∀ c ∈ marks.toList, isPunctuation c = true) :
      Respelled v (a ++ b) (a ++ marks ++ b)

/-- A respelled line has the same meaningful words. -/
theorem CommandReader.meaningfulWords_respelled {i : CommandReader} {a b : String}
    (h : Respelled i.vocabulary a b) : i.meaningfulWords a = i.meaningfulWords b := by
  rw [meaningfulWords, meaningfulWords]
  cases h with
  | @noise a n b hab han hnb hnoise =>
    have hnone : (inputWords n).filter (! i.vocabulary.isNoise ·) = [] := by
      rw [List.filter_eq_nil_iff]
      intro word hword
      simp [hnoise word hword]
    rw [inputWords_append_of_parted hab, inputWords_append_append hab han hnb, List.filter_append,
      List.filter_append, List.filter_append, hnone, List.append_nil]
  | letterCase h =>
    have hupper : a.toList.map Char.toUpper = b.toList.map Char.toUpper := by
      simpa [canonical] using congrArg String.toList h
    have hclean : cleanWord a.toList = cleanWord b.toList := by
      rw [cleanWord_eq_filter, cleanWord_eq_filter, hupper]
    rw [inputWords_congr hclean]
  | @punctuation a marks b h =>
    have hclean : cleanWord (a ++ b).toList = cleanWord (a ++ marks ++ b).toList := by
      simp only [String.toList_append, cleanWord_append, cleanWord_eq_nil h, List.append_nil]
    rw [inputWords_congr hclean]

/-- A command looks at nothing of its line but the meaningful words. -/
theorem Game.command_congr {g : Game} {a b : String}
    (h : g.reader.meaningfulWords a = g.reader.meaningfulWords b) (fuel : Nat) :
    g.command fuel a = g.command fuel b := by
  have haccept : g.reader.accept g.machine.world a = g.reader.accept g.machine.world b := by
    rw [CommandReader.accept, CommandReader.accept, CommandReader.resolve, CommandReader.resolve, h]
  rw [command, command, haccept]

theorem Game.command_respelled {g : Game} {a b : String}
    (h : Relation.EqvGen (Respelled g.reader.vocabulary) a b) (fuel : Nat) :
    g.command fuel a = g.command fuel b := by
  induction h with
  | rel a b h => exact command_congr (CommandReader.meaningfulWords_respelled h) fuel
  | refl a => rfl
  | symm a b _ ih => exact ih.symm
  | trans a b c _ _ ih ih' => exact ih.trans ih'

/-- The words of a line are not empty and hold no blank, no quote, no punctuation and no small
letter.  Written one behind the other with single spaces they are the same words again, and the
words of two texts with a space between them are those of the first and then those of the second.
So spelling does not matter to a command: for lines that noise between words, the case of letters
and punctuation turn into each other, the reply is the same and so is the game after it. -/
theorem inputWords_spelling :
    (∀ input, ∀ word ∈ inputWords input, word ≠ "" ∧ ∀ c ∈ word.toList,
      isBlank c = false ∧ c ≠ '"' ∧ isPunctuation c = false ∧ c.isLower = false) ∧
    (∀ input, inputWords (" ".intercalate (inputWords input)) = inputWords input) ∧
    (∀ a b, inputWords (a ++ " " ++ b) = inputWords a ++ inputWords b) ∧
    ∀ (g : Game) (fuel : Nat) (a b : String),
      Relation.EqvGen (Respelled g.reader.vocabulary) a b →
      g.command fuel a = g.command fuel b := by
  refine ⟨fun input word hword => ?_, fun input => ?_, inputWords_append_space,
    fun g fuel a b h => Game.command_respelled h fuel⟩
  · have hinput : IsInputWord word := ⟨input, hword⟩
    refine ⟨?_, fun c hc => hinput.char hc⟩
    rintro rfl
    exact hinput.spelled.1 rfl
  · exact inputWords_intercalate fun word hword => ⟨input, hword⟩

/-- With a noise word, capital letters and punctuation, taking the sack is the same command. -/
theorem inputWords_spelling_sack :
    ∃ g : Game, load .standard 9 furnishedAttic = .done g ∧
      (∃ c, g.reader.resolve g.machine.world "take sack" = .parsed c ∧ c.direct = .object ⟨2⟩) ∧
      Relation.EqvGen (Respelled g.reader.vocabulary) "take sack" "Take, the SACK!" ∧
      g.command 9 "take sack" = g.command 9 "Take, the SACK!" := by
  have hpasses : (load .standard 9 furnishedAttic).passes (fun g =>
      decide (g.LineNames "take sack" (some ⟨2⟩) none) &&
        g.reader.vocabulary.isNoise "THE") = true := by
    decide +kernel
  obtain ⟨g, hload, htest⟩ := Outcome.exists_of_passes hpasses
  obtain ⟨hnames, hisNoise⟩ := Bool.and_eq_true_iff.mp htest
  obtain ⟨hobjects, -⟩ := of_decide_eq_true hnames
  obtain ⟨c, hparsed, hdirect, -⟩ := Resolution.exists_of_objects?_eq hobjects
  have hsack : " sack".toList.head? = some ' ' := by decide
  have hthe : " the".toList.head? = some ' ' := by decide
  have hnoise : Respelled g.reader.vocabulary ("take" ++ " sack") ("take" ++ " the" ++ " sack") :=
    .noise (.of_head? hsack rfl _) (.of_head? hthe rfl _) (.of_head? hsack rfl _)
      fun word hword => by
        rw [show inputWords " the" = ["THE"] by decide +kernel, List.mem_singleton] at hword
        rwa [hword]
  have hcase : Respelled g.reader.vocabulary "take the sack" "Take the SACK" :=
    .letterCase (by decide)
  have hcomma : Respelled g.reader.vocabulary ("Take" ++ " the SACK")
      ("Take" ++ "," ++ " the SACK") :=
    .punctuation (List.all_eq_true.mp (by decide))
  have hmark : Respelled g.reader.vocabulary ("Take, the SACK" ++ "")
      ("Take, the SACK" ++ "!" ++ "") :=
    .punctuation (List.all_eq_true.mp (by decide))
  have hspelled : Relation.EqvGen (Respelled g.reader.vocabulary) "take sack" "Take, the SACK!" :=
    .trans _ _ _ (.rel _ _ hnoise) (.trans _ _ _ (.rel _ _ hcase)
      (.trans _ _ _ (.rel _ _ hcomma) (.rel _ _ hmark)))
  exact ⟨g, hload, ⟨c, hparsed, Value.eq_object_of_object? hdirect⟩, hspelled,
    inputWords_spelling.2.2.2 g 9 _ _ hspelled⟩

end TextAdventure
