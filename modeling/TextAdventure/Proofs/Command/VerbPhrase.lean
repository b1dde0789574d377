import TextAdventure.Proofs.Command.Reference

/-!
Which rule a player's words are read by.

A verb phrase has at least its verb, and stands at the front of some words when they begin with it
after the first of them has been replaced by the word it is a synonym of.  Of all rules whose verb
phrase does, those with the longest are left, and they all have the same one.

* `Vocabulary.fits_iff` — a rule fits some words when its verb phrase stands in front of them;
* `Vocabulary.longest_eq_none_iff`, `Vocabulary.longest_eq_some_iff` — when there is no such rule,
  and which rules are left;
* `Vocabulary.IsLongest.verbPhrase_eq` — what their verb phrase is;
* `RuleMatch.select_eq_some_iff` — the first of them that suits the objects and the preposition is
  chosen, or else the first that suits the objects;
* `CommandReader.longest_choice` — all of this together, and that the words behind the verb phrase
  are those that remain.
-/

namespace TextAdventure

namespace Vocabulary

/-- Some words with the first replaced by the word that it is a synonym of. -/
def withPrimary (v : Vocabulary) : List String → List String
  | [] => []
  | first :: rest => v.primary first :: rest

/-- The verb phrase of a rule stands in front of some words. -/
def InFront (v : Vocabulary) (words : List String) (rule : CommandRule) : Prop :=
  rule.verbPhrase <+: v.withPrimary words

instance (v : Vocabulary) (words : List String) (rule : CommandRule) :
    Decidable (v.InFront words rule) :=
  inferInstanceAs (Decidable (_ <+: _))

theorem length_withPrimary (v : Vocabulary) (words : List String) :
    (v.withPrimary words).length = words.length := by
  cases words <;> rfl

theorem fits_iff {v : Vocabulary} {words : List String} {rule : CommandRule} :
    v.fits words rule = true ↔ v.InFront words rule := by
  cases words with
  | nil => simp [fits, InFront, withPrimary, CommandRule.verbPhrase]
  | cons first rest =>
    simp only [fits, InFront, withPrimary, CommandRule.verbPhrase, List.cons_prefix_cons,
      Bool.and_eq_true, beq_iff_eq, List.isPrefixOf_iff_prefix]
    rw [eq_comm]

theorem longest_eq_none_iff {v : Vocabulary} {words : List String} :
    v.longest words = none ↔ ∀ rule ∈ v.rules, ¬ v.InFront words rule := by
  have hempty : v.longest words = none ↔ v.rules.filter (v.fits words) = [] := by
    rw [longest]
    split
    · rename_i hmax
      simpa using hmax
    · rename_i consumed hmax
      refine iff_of_false (by simp) fun hnil => ?_
      simp [hnil] at hmax
  rw [hempty, List.filter_eq_nil_iff]
  simp only [fits_iff]

/-- The rules found are those with the longest verb phrase in front of some words, in the order of
their declaration, and `consumed` is its length. -/
structure IsLongest (v : Vocabulary) (words : List String) (found : RuleMatch) : Prop where
  attained : ∃ rule ∈ v.rules, v.InFront words rule ∧ rule.verbPhrase.length = found.consumed
  greatest : ∀ rule ∈ v.rules, v.InFront words rule → rule.verbPhrase.length ≤ found.consumed
  rules : found.rules =
    v.rules.filter fun rule => v.InFront words rule ∧ rule.verbPhrase.length = found.consumed

theorem isLongest_of_longest {v : Vocabulary} {words : List String} {found : RuleMatch}
    (h : v.longest words = some found) : v.IsLongest words found := by
  obtain ⟨⟨rule, hrule, hfits, hlength⟩, hgreatest⟩ := longest_eq_some h
  refine ⟨⟨rule, hrule, fits_iff.mp hfits, hlength⟩,
    fun other hother hfront => hgreatest other hother (fits_iff.mpr hfront), ?_⟩
  rw [longest] at h
  split at h
  · cases h
  · cases h
    -- the rules that fit are filtered once more for their length
    rw [List.filter_filter]
    refine List.filter_congr fun other _ => ?_
    rw [Bool.eq_iff_iff, Bool.and_eq_true, beq_iff_eq, fits_iff, decide_eq_true_iff]
    exact and_comm

namespace IsLongest

variable {v : Vocabulary} {words : List String} {found found' : RuleMatch}

/-- There is only one longest verb phrase. -/
theorem unique (h : v.IsLongest words found) (h' : v.IsLongest words found') : found = found' := by
  obtain ⟨rule, hrule, hfront, hlength⟩ := h.attained
  obtain ⟨rule', hrule', hfront', hlength'⟩ := h'.attained
  have hle := h.greatest rule' hrule' hfront'
  have hge := h'.greatest rule hrule hfront
  have hconsumed : found.consumed = found'.consumed := by omega
  have hrules : found.rules = found'.rules := by rw [h.rules, h'.rules, hconsumed]
  calc found = ⟨found.rules, found.consumed⟩ := rfl
    _ = ⟨found'.rules, found'.consumed⟩ := by rw [hrules, hconsumed]
    _ = found' := rfl

theorem one_le_consumed (h : v.IsLongest words found) : 1 ≤ found.consumed := by
  obtain ⟨rule, -, -, hlength⟩ := h.attained
  rw [← hlength]
  simp [CommandRule.verbPhrase]

theorem consumed_le (h : v.IsLongest words found) : found.consumed ≤ words.length := by
  obtain ⟨rule, -, hfront, hlength⟩ := h.attained
  rw [← hlength, ← v.length_withPrimary words]
  exact hfront.length_le

/-- Every rule found has the words in front as its verb phrase. -/
theorem verbPhrase_eq (h : v.IsLongest words found) {rule : CommandRule}
    (hrule : rule ∈ found.rules) :
    rule.verbPhrase = (v.withPrimary words).take found.consumed := by
  rw [h.rules, List.mem_filter, decide_eq_true_iff] at hrule
  obtain ⟨-, hfront, hlength⟩ := hrule
  rw [← hlength]
  exact List.prefix_iff_eq_take.mp hfront

end IsLongest

theorem longest_eq_some_iff {v : Vocabulary} {words : List String} {found : RuleMatch} :
    v.longest words = some found ↔ v.IsLongest words found := by
  refine ⟨isLongest_of_longest, fun h => ?_⟩
  cases hlongest : v.longest words with
  | none =>
    obtain ⟨rule, hrule, hfront, -⟩ := h.attained
    exact absurd hfront (longest_eq_none_iff.mp hlongest rule hrule)
  | some other => rw [(isLongest_of_longest hlongest).unique h]

end Vocabulary

/-! ### The choice between rules -/

namespace CommandRule

/-- A rule is the first of some that has a property. -/
def IsFirst (P : CommandRule → Prop) (rules : List CommandRule) (rule : CommandRule) : Prop :=
  P rule ∧ ∃ before after, rules = before ++ rule :: after ∧ ∀ other ∈ before, ¬ P other

/-- A rule has a number of objects, and a preposition by which it is chosen. -/
def Suits (preposition : Option String) (objects : Nat) (rule : CommandRule) : Prop :=
  rule.objects = objects ∧ rule.preposition? = preposition

instance (preposition : Option String) (objects : Nat) :
    DecidablePred (Suits preposition objects) :=
  fun _ => inferInstanceAs (Decidable (_ ∧ _))

theorem isFirst_iff {P : CommandRule → Prop} [DecidablePred P] {rules : List CommandRule}
    {rule : CommandRule} : IsFirst P rules rule ↔ rules.find? (P ·) = some rule := by
  simp [IsFirst, List.find?_eq_some_iff_append]

end CommandRule

namespace RuleMatch

variable {found : RuleMatch} {preposition : Option String} {objects : Nat} {rule : CommandRule}

theorem select_eq (found : RuleMatch) (preposition : Option String) (objects : Nat) :
    found.select preposition objects =
      (found.rules.find? (CommandRule.Suits preposition objects ·)).or
        (found.rules.find? (·.objects = objects)) := by
  have hsuits : (found.rules.filter (·.objects == objects)).find? (·.preposition? == preposition) =
      found.rules.find? (CommandRule.Suits preposition objects ·) := by
    rw [List.find?_filter]
    refine congrArg (found.rules.find? ·) (funext fun rule => ?_)
    rw [Bool.eq_iff_iff, decide_eq_true_iff, decide_eq_true_iff, CommandRule.Suits, beq_iff_eq,
      beq_iff_eq]
  have hobjects : (found.rules.filter (·.objects == objects)).head? =
      found.rules.find? (·.objects = objects) := by
    rw [List.head?_filter]
    simp [beq_eq_decide]
  rw [select, hsuits, hobjects]
  cases found.rules.find? (CommandRule.Suits preposition objects ·) <;> rfl

/-- The first rule that suits the objects and the preposition is chosen, and where there is none
the first that suits the objects. -/
theorem select_eq_some_iff :
    found.select preposition objects = some rule ↔
      CommandRule.IsFirst (CommandRule.Suits preposition objects) found.rules rule ∨
      (∀ other ∈ found.rules, ¬ other.Suits preposition objects) ∧
        CommandRule.IsFirst (·.objects = objects) found.rules rule := by
  rw [select_eq, Option.or_eq_some_iff, CommandRule.isFirst_iff, CommandRule.isFirst_iff,
    List.find?_eq_none]
  simp

theorem select_eq_none_iff :
    found.select preposition objects = none ↔ ∀ rule ∈ found.rules, rule.objects ≠ objects := by
  rw [select_eq, Option.or_eq_none_iff, List.find?_eq_none, List.find?_eq_none]
  simp only [decide_eq_true_iff]
  -- a rule that suits the preposition too is one that suits the objects
  exact and_iff_right_of_imp fun h rule hrule hsuits => h rule hrule hsuits.1

end RuleMatch

/-! ### The words behind the verb phrase -/

/-- How some words are read.  No rule is found exactly when no verb phrase stands in front of them.
Otherwise the rules found are those with the longest such verb phrase, in the order of their
declaration; it takes at least one word and no more than there are, and all of them have the same.
Of these the first is chosen that suits the number of objects and the preposition, or else the
first that suits the number of objects, if there is one.  And the verb phrase, the two phrases
behind it and the preposition between them are all of the words. -/
theorem CommandReader.longest_choice (i : CommandReader) (words : List String) :
    (i.vocabulary.longest words = none ↔
      ∀ rule ∈ i.vocabulary.rules, ¬ i.vocabulary.InFront words rule) ∧
    ∀ found, i.vocabulary.longest words = some found →
      i.vocabulary.IsLongest words found ∧
      1 ≤ found.consumed ∧ found.consumed ≤ words.length ∧
      (∀ rule ∈ found.rules, ∀ other ∈ found.rules, other.verbPhrase = rule.verbPhrase) ∧
      (∀ preposition objects rule, found.select preposition objects = some rule ↔
        CommandRule.IsFirst (CommandRule.Suits preposition objects) found.rules rule ∨
        (∀ other ∈ found.rules, ¬ other.Suits preposition objects) ∧
          CommandRule.IsFirst (·.objects = objects) found.rules rule) ∧
      (∀ preposition objects, found.select preposition objects = none ↔
        ∀ rule ∈ found.rules, rule.objects ≠ objects) ∧
      ∃ verb, verb.length = found.consumed ∧
        words = verb ++ ((i.phrases (words.drop found.consumed)).direct ++
          ((i.phrases (words.drop found.consumed)).preposition.toList ++
            (i.phrases (words.drop found.consumed)).indirect)) := by
  refine ⟨Vocabulary.longest_eq_none_iff, fun found hfound => ?_⟩
  have hlongest := Vocabulary.longest_eq_some_iff.mp hfound
  have hconsumed := hlongest.consumed_le
  refine ⟨hlongest, hlongest.one_le_consumed, hconsumed, ?_, ?_, ?_, ?_⟩
  · intro rule hrule other hother
    rw [hlongest.verbPhrase_eq hrule, hlongest.verbPhrase_eq hother]
  · intro preposition objects rule
    exact RuleMatch.select_eq_some_iff
  · intro preposition objects
    exact RuleMatch.select_eq_none_iff
  · refine ⟨words.take found.consumed, ?_, ?_⟩
    · simpa using hconsumed
    · rw [i.append_phrases, List.take_append_drop]

/-- A reader with two verb phrases for one verb, which has a synonym. -/
def pickingReader : CommandReader :=
  let declared : List (List String) := [["PICK", "OBJECT", "=", "V-CHOOSE"],
    ["PICK", "UP", "OBJECT", "=", "V-TAKE"],
    ["PICK", "UP", "OBJECT", "WITH", "OBJECT", "=", "V-LIFT"]]
  let rules := declared.filterMap fun words => (CommandRule.ofWords words).toOption
  ⟨(rules.foldl Vocabulary.addRule .empty).addSynonyms "PICK" ["GATHER"], "WINNER", "HERE"⟩

/-- Of the rules for "gather up" the one with a preposition is chosen for two objects. -/
theorem CommandReader.longest_choice_gather :
    ∃ found rule, pickingReader.vocabulary.longest ["GATHER", "UP", "COAL", "WITH", "TONGS"] =
        some found ∧
      pickingReader.vocabulary.IsLongest ["GATHER", "UP", "COAL", "WITH", "TONGS"] found ∧
      found.consumed = 2 ∧ found.select (some "WITH") 2 = some rule ∧ rule.action = "V-LIFT" ∧
      ∀ other ∈ found.rules, other.verbPhrase = rule.verbPhrase := by
  let taking : CommandRule := ⟨"PICK", ["UP"], 1, [], "V-TAKE", none⟩
  let lifting : CommandRule := ⟨"PICK", ["UP"], 2, ["WITH"], "V-LIFT", none⟩
  have hfound : pickingReader.vocabulary.longest ["GATHER", "UP", "COAL", "WITH", "TONGS"] =
      some ⟨[taking, lifting], 2⟩ := by
    decide +kernel
  obtain ⟨-, hrules⟩ := pickingReader.longest_choice ["GATHER", "UP", "COAL", "WITH", "TONGS"]
  obtain ⟨hlongest, -, -, hphrase, hselect, -, -⟩ := hrules _ hfound
  refine ⟨_, lifting, hfound, hlongest, rfl, (hselect _ _ _).mpr (.inl ⟨⟨rfl, rfl⟩, ?_⟩), rfl, ?_⟩
  · refine ⟨[taking], [], rfl, ?_⟩
    simp [CommandRule.Suits, taking]
  · exact hphrase lifting (by simp)

end TextAdventure
