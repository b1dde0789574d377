import TextAdventure.Proofs.Command.Places
import TextAdventure.Proofs.Command.VerbPhrase

/-!
Synonyms of a verb are interchangeable.

The first word of a line may name a direction, ask to go in one, or begin a verb phrase.  It is
always read as the word that it is a synonym of, and what follows the verb phrase does not contain
it, so a line means the same with one synonym as with another.  Only a complaint shows the word
that was typed.

* `IsInputWord`, `inputWords_append` — a word in front of a line is the first of its words;
* `CommandReader.heading?_congr`, `Vocabulary.longest_congr` — directions and rules depend on the
  first word only through its primary;
* `Resolution.AlikeUpTo` — two answers are the same but for the word with which a complaint begins;
* `CommandReader.resolve_synonyms` — the answers to two lines that differ in a synonym are.
-/

namespace TextAdventure

/-! ### Fields of a text -/

section

variable {separator : Char → Bool} {cs field word : List Char} {fields : List (List Char)}

theorem separator_of_mem_splitBy (h : field ∈ splitBy separator cs) :
    ∀ c ∈ field, separator c = false := by
  induction cs generalizing field with
  | nil => simp_all [splitBy]
  | cons c cs ih =>
    rw [splitBy] at h
    by_cases hc : separator c = true
    · rw [if_pos hc] at h
      rcases List.mem_cons.mp h with rfl | hfield
      · simp
      · exact ih hfield
    · rw [if_neg hc] at h
      obtain ⟨first, rest, hsplit⟩ := List.exists_cons_of_ne_nil (splitBy_ne_nil separator cs)
      rw [hsplit] at h ih
      rcases List.mem_cons.mp h with rfl | hfield
      · intro d hd
        rcases List.mem_cons.mp hd with rfl | hd
        · simpa using hc
        · exact ih List.mem_cons_self d hd
      · exact ih (List.mem_cons_of_mem first hfield)

/-- Characters in front of a text that part nothing belong to its first field. -/
theorem splitBy_append (hword : ∀ c ∈ word, separator c = false)
    (h : splitBy separator cs = field :: fields) :
    splitBy separator (word ++ cs) = (word ++ field) :: fields := by
  induction word with
  | nil => exact h
  | cons c word ih =>
    have hrest := ih fun d hd => hword d (List.mem_cons_of_mem c hd)
    simp [splitBy, hword c List.mem_cons_self, hrest]

/-- The first field of a text goes up to the first separator. -/
theorem eq_takeWhile_of_splitBy (h : splitBy separator cs = field :: fields) :
    field = cs.takeWhile (! separator ·) := by
  induction cs generalizing field fields with
  | nil => simp_all [splitBy]
  | cons c cs ih =>
    rw [splitBy] at h
    by_cases hc : separator c = true
    · rw [if_pos hc] at h
      cases h
      simp [hc]
    · rw [if_neg hc] at h
      obtain ⟨first, rest, hsplit⟩ := List.exists_cons_of_ne_nil (splitBy_ne_nil separator cs)
      rw [hsplit] at h
      cases h
      simp [hc, ← ih hsplit]

end

/-! ### Words of a line -/

/-- Raising a letter leaves it as it is or turns one of a to z into one of A to Z. -/
theorem toUpper_cases (c : Char) :
    c.toUpper = c ∨ 97 ≤ c.toNat ∧ c.toNat ≤ 122 ∧ 65 ≤ c.toUpper.toNat ∧ c.toUpper.toNat ≤ 90 := by
  by_cases h : 'a'.val ≤ c.val ∧ c.val ≤ 'z'.val
  · right
    have hup : c.toUpper.val = c.val + ('A'.val - 'a'.val) := by
      rw [Char.toUpper.eq_def c, dif_pos h]
    obtain ⟨hle, hge⟩ := h
    have ha : 'a'.val.toNat = 97 := rfl
    have hz : 'z'.val.toNat = 122 := rfl
    -- 32 is taken away by adding what it lacks to a whole turn
    have hA : ('A'.val - 'a'.val).toNat = 4294967264 := rfl
    rw [UInt32.le_iff_toNat_le] at hle hge
    have hnat : c.toUpper.toNat = (c.toNat + 4294967264) % 4294967296 := by
      rw [Char.toNat, hup, UInt32.toNat_add, hA]
      rfl
    have hc : c.toNat = c.val.toNat := rfl
    omega
  · left
    rw [Char.toUpper.eq_def c, dif_neg h]

/-- A letter from A to Z, raised or not. -/
def IsLetter (c : Char) : Prop := 65 ≤ c.toNat ∧ c.toNat ≤ 90 ∨ 97 ≤ c.toNat ∧ c.toNat ≤ 122

theorem toUpper_keeps {p : Char → Bool} (hp : ∀ c, IsLetter c → p c = false) (c : Char) :
    p c.toUpper = p c := by
  rcases toUpper_cases c with hsame | ⟨hle, hge, hle', hge'⟩
  · rw [hsame]
  · rw [hp c (.inr ⟨hle, hge⟩), hp c.toUpper (.inl ⟨hle', hge'⟩)]

theorem IsLetter.isPunctuation {c : Char} (h : IsLetter c) : isPunctuation c = false := by
  rw [TextAdventure.isPunctuation, List.contains_eq_mem, decide_eq_false_iff_not]
  intro hmem
  simp only [List.mem_cons, List.not_mem_nil, or_false] at hmem
  rcases hmem with rfl | rfl | rfl | rfl | rfl | rfl | rfl <;> revert h <;> simp [IsLetter]

theorem IsLetter.partsWords {c : Char} (h : IsLetter c) : partsWords c = false := by
  have hquote : c ≠ '"' := by
    rintro rfl
    revert h
    simp [IsLetter]
  have hblank : isBlank c = false := by
    simp only [isBlank, Bool.or_eq_false_iff, Bool.and_eq_false_iff, decide_eq_false_iff_not,
      beq_eq_false_iff_ne]
    simp only [IsLetter] at h
    omega
  simp [TextAdventure.partsWords, hquote, hblank]

theorem cleanWord_append (cs ds : List Char) :
    cleanWord (cs ++ ds) = cleanWord cs ++ cleanWord ds := by
  simp [cleanWord]

theorem cleanWord_cleanWord (cs : List Char) : cleanWord (cleanWord cs) = cleanWord cs := by
  have hkept : ∀ c ∈ cleanWord cs, isPunctuation c = false := by
    intro c hc
    simp only [cleanWord, List.mem_map, List.mem_filter] at hc
    obtain ⟨d, ⟨-, hd⟩, rfl⟩ := hc
    rw [toUpper_keeps fun _ => IsLetter.isPunctuation]
    simpa using hd
  have hfilter : (cleanWord cs).filter (! isPunctuation ·) = cleanWord cs := by
    rw [List.filter_eq_self]
    intro c hc
    simp [hkept c hc]
  rw [cleanWord, hfilter, cleanWord, List.map_map]
  simp only [Function.comp_def, toUpper_toUpper]

theorem cleanWord_eq_nil {cs : List Char} (h : ∀ c ∈ cs, isPunctuation c = true) :
    cleanWord cs = [] := by
  simp only [cleanWord, List.map_eq_nil_iff, List.filter_eq_nil_iff]
  intro c hc
  simp [h c hc]

/-- A word that a player's line can hold. -/
def IsInputWord (word : String) : Prop := ∃ input, word ∈ inputWords input

/-- A word of a line is not empty, nothing in it parts words, and it is spelled as words are. -/
theorem IsInputWord.spelled {word : String} (h : IsInputWord word) :
    word.toList ≠ [] ∧ (∀ c ∈ word.toList, partsWords c = false) ∧
      cleanWord word.toList = word.toList := by
  obtain ⟨input, hword⟩ := h
  simp only [inputWords, List.mem_map, List.mem_filter] at hword
  obtain ⟨cs, ⟨⟨field, hfield, rfl⟩, hne⟩, rfl⟩ := hword
  rw [String.toList_ofList]
  refine ⟨by simpa using hne, fun c hc => ?_, cleanWord_cleanWord field⟩
  simp only [cleanWord, List.mem_map, List.mem_filter] at hc
  obtain ⟨d, ⟨hd, -⟩, rfl⟩ := hc
  rw [toUpper_keeps fun _ => IsLetter.partsWords]
  exact separator_of_mem_splitBy hfield d hd

/-- Nothing of some text belongs to a word in front of it: it is empty, or begins with what parts
words, perhaps after punctuation. -/
def StandsApart (rest : String) : Prop :=
  (rest.toList.takeWhile (! partsWords ·)).all isPunctuation = true

instance (rest : String) : Decidable (StandsApart rest) := inferInstanceAs (Decidable (_ = true))

/-- The words of a line are the word in front of it and those of the rest. -/
theorem inputWords_append {word rest : String} (hword : IsInputWord word)
    (hrest : StandsApart rest) : inputWords (word ++ rest) = word :: inputWords rest := by
  obtain ⟨hne, hparts, hclean⟩ := hword.spelled
  obtain ⟨field, fields, hsplit⟩ :=
    List.exists_cons_of_ne_nil (splitBy_ne_nil partsWords rest.toList)
  have hfield : cleanWord field = [] := by
    refine cleanWord_eq_nil (List.all_eq_true.mp ?_)
    rw [eq_takeWhile_of_splitBy hsplit]
    exact hrest
  simp [inputWords, splitBy_append hparts hsplit, hsplit, cleanWord_append, hfield, hclean, hne]

/-! ### The first word -/

section

variable {s t : String}

theorem Vocabulary.direction?_congr {v : Vocabulary} (h : v.primary s = v.primary t) :
    v.direction? s = v.direction? t := by
  rw [direction?, direction?, h]

theorem Vocabulary.longest_congr {v : Vocabulary} (h : v.primary s = v.primary t)
    (rest : List String) : v.longest (s :: rest) = v.longest (t :: rest) := by
  have hfits : v.fits (s :: rest) = v.fits (t :: rest) := by
    funext rule
    rw [fits, fits, h]
  rw [longest, longest, hfits]

theorem CommandReader.heading?_congr {i : CommandReader}
    (h : i.vocabulary.primary s = i.vocabulary.primary t) (rest : List String) :
    i.heading? (s :: rest) = i.heading? (t :: rest) := by
  match rest with
  | [] => exact Vocabulary.direction?_congr h
  | [word] => simp only [heading?, h]
  | _ :: _ :: _ => rfl

end

/-! ### Complaints -/

/-- Two answers are the same, or they are complaints that begin with the words `s` and `t` and go on
in the same way. -/
inductive Resolution.AlikeUpTo (s t : String) : Resolution → Resolution → Prop
  | same (answer : Resolution) : AlikeUpTo s t answer answer
  | typed (rest : String) :
      AlikeUpTo s t (.notUnderstood (lowercase s ++ rest)) (.notUnderstood (lowercase t ++ rest))

theorem Resolution.AlikeUpTo.eq_parsed {s t : String} {c : Command} {answer : Resolution}
    (h : AlikeUpTo s t (.parsed c) answer) : answer = .parsed c := by
  cases h
  rfl

theorem lowercase_append (s t : String) : lowercase (s ++ t) = lowercase s ++ lowercase t := by
  simp [lowercase, String.ofList_append]

/-- The text of some words begins with the first of them. -/
theorem exists_intercalate (rest : List String) :
    ∃ text, ∀ first, " ".intercalate (first :: rest) = first ++ text := by
  cases rest with
  | nil => exact ⟨"", fun first => by simp⟩
  | cons second rest =>
    refine ⟨" " ++ " ".intercalate (second :: rest), fun first => ?_⟩
    rw [String.intercalate_cons_cons, String.append_assoc]

namespace CommandReader

theorem resolveWords_synonyms {i : CommandReader} {s t : String}
    (h : i.vocabulary.primary s = i.vocabulary.primary t) (w : World) (rest : List String) :
    Resolution.AlikeUpTo s t (i.resolveWords w (s :: rest)) (i.resolveWords w (t :: rest)) := by
  simp only [resolveWords, heading?_congr h, Vocabulary.longest_congr h]
  cases i.heading? (t :: rest) with
  | some direction => exact .same _
  | none =>
    cases hfound : i.vocabulary.longest (t :: rest) with
    | none => simpa using Resolution.AlikeUpTo.typed ""
    | some found =>
      -- the verb phrase takes the first word away, so the phrases behind it are the same
      have hconsumed := (Vocabulary.longest_eq_some_iff.mp hfound).one_le_consumed
      obtain ⟨k, hk⟩ : ∃ k, found.consumed = k + 1 := ⟨found.consumed - 1, by omega⟩
      simp only [hk, List.drop_succ_cons]
      cases found.select (i.phrases (rest.drop k)).preposition
          (objectCount (i.phrases (rest.drop k))) with
      | some rule => exact .same _
      | none =>
        obtain ⟨text, htext⟩ := exists_intercalate rest
        simp only [htext, lowercase_append]
        exact .typed (lowercase text)

/-- Synonyms of a verb are interchangeable.  Let two words that a line can hold, neither of them a
noise word, stand for the same word.  Then a line that begins with one of them and the line that
begins with the other and goes on in the same way are the same command, or raise the same question
which object is meant, or are both not understood, and then the complaints differ at most in the
word typed first. -/
theorem resolve_synonyms (i : CommandReader) (w : World) {s t rest : String} (hs : IsInputWord s)
    (ht : IsInputWord t) (hsNoise : i.vocabulary.isNoise s = false)
    (htNoise : i.vocabulary.isNoise t = false)
    (hprimary : i.vocabulary.primary s = i.vocabulary.primary t) (hrest : StandsApart rest) :
    Resolution.AlikeUpTo s t (i.resolve w (s ++ rest)) (i.resolve w (t ++ rest)) := by
  have hwords {word : String} (hword : IsInputWord word)
      (hnoise : i.vocabulary.isNoise word = false) :
      i.meaningfulWords (word ++ rest) = word :: i.meaningfulWords rest := by
    rw [meaningfulWords, inputWords_append hword hrest, List.filter_cons_of_pos (by simp [hnoise])]
    rfl
  rw [resolve, resolve, hwords hs hsNoise, hwords ht htNoise]
  exact resolveWords_synonyms hprimary w _

/-- With a synonym for "take", both ways of taking the sack are one command. -/
theorem resolve_synonyms_grab :
    ∃ g : Game, load .standard 9 (furnishedAttic ++ [declaredWords "SYNONYM" ["TAKE", "GRAB"]]) =
        .done g ∧
      ∃ c, c.direct = .object ⟨2⟩ ∧
        g.reader.resolve g.machine.world "TAKE the sack!" = .parsed c ∧
        g.reader.resolve g.machine.world "GRAB the sack!" = .parsed c := by
  have hpasses : (load .standard 9
      (furnishedAttic ++ [declaredWords "SYNONYM" ["TAKE", "GRAB"]])).passes (fun g =>
        (g.reader.resolve g.machine.world "TAKE the sack!").objects? == some (some ⟨2⟩, none) &&
        decide (g.reader.vocabulary.isNoise "TAKE" = false ∧
          g.reader.vocabulary.isNoise "GRAB" = false ∧
          g.reader.vocabulary.primary "TAKE" = g.reader.vocabulary.primary "GRAB")) = true := by
    decide +kernel
  obtain ⟨g, hload, htest⟩ := Outcome.exists_of_passes hpasses
  obtain ⟨hobjects, hwords⟩ := Bool.and_eq_true_iff.mp htest
  obtain ⟨htake, hgrab, hprimary⟩ := of_decide_eq_true hwords
  have hrest : StandsApart " the sack!" := by decide
  have halike := g.reader.resolve_synonyms g.machine.world ⟨"take", by decide⟩ ⟨"grab", by decide⟩
    htake hgrab hprimary hrest
  obtain ⟨c, hparsed, hdirect, -⟩ := Resolution.exists_of_objects?_eq (eq_of_beq hobjects)
  have hfirst : "TAKE" ++ " the sack!" = "TAKE the sack!" := rfl
  have hsecond : "GRAB" ++ " the sack!" = "GRAB the sack!" := rfl
  rw [hfirst, hsecond, hparsed] at halike
  exact ⟨g, hload, c, Value.eq_object_of_object? hdirect, hparsed, halike.eq_parsed⟩

end CommandReader

end TextAdventure
