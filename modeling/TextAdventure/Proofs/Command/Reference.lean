import Mathlib.Data.List.TakeWhile
import TextAdventure.Proofs.Command.Visibility

/-!
What the phrases of a command refer to.

A command names its objects by phrases, and a phrase stands for an object only if no other object
in scope fits it; otherwise the player is asked which of all that fit is meant.

* `World.Matches` — an object fits the words of a phrase, among the objects in scope;
* `NounPhrase.mem_candidates` — the candidates for a phrase are the objects in scope that fit it;
* `CommandReader.Divides` — how a line falls into a verb phrase and the phrases of two objects;
* `CommandReader.resolveWords_cases` — the objects of a command come from those phrases alone;
* `CommandReader.resolve_never_guesses` — an object in a command is the only one that fits, and a
  question names all that fit.
-/

namespace TextAdventure

/-! ### Words and objects -/

/-- A word is one of some others, in any letter case. -/
def IsAmong (word : String) (words : List String) : Prop :=
  ∃ other ∈ words, canonical other = canonical word

theorem any_sameLetters {word : String} {words : List String} :
    words.any (sameLetters · word) = true ↔ IsAmong word words := by
  simp [IsAmong, List.any_eq_true, sameLetters_iff]

/-- The last of some words is one of an object's nouns, and all others are among its
adjectives. -/
def GameObject.AnswersTo (o : GameObject) (words : List String) : Prop :=
  ∃ adjectives noun, words = adjectives ++ [noun] ∧ IsAmong noun o.synonyms ∧
    ∀ adjective ∈ adjectives, IsAmong adjective o.adjectives

theorem GameObject.answersTo_append {o : GameObject} {adjectives : List String} {noun : String} :
    o.AnswersTo (adjectives ++ [noun]) ↔
      IsAmong noun o.synonyms ∧ ∀ adjective ∈ adjectives, IsAmong adjective o.adjectives := by
  constructor
  · rintro ⟨adjectives', noun', heq, h⟩
    obtain ⟨rfl, hlast⟩ := List.append_inj' heq rfl
    cases hlast
    exact h
  · intro h
    exact ⟨adjectives, noun, rfl, h⟩

/-- An object fits the words of a phrase: it answers to them, or else the phrase is a single word
that is a noun of no object in scope and an adjective of this one. -/
inductive World.Matches (w : World) (scope : List ObjectId) (words : List String) (x : ObjectId) :
    Prop
  | called {object : GameObject} (hx : w.object? x = some object)
      (h : object.AnswersTo words) : Matches w scope words x
  | described {object : GameObject} {word : String} (hwords : words = [word])
      (hnoun : ∀ y ∈ scope, ∀ other, w.object? y = some other → ¬ IsAmong word other.synonyms)
      (hx : w.object? x = some object) (h : IsAmong word object.adjectives) :
      Matches w scope words x

namespace NounPhrase

theorem ofWords?_eq_some_iff {words : List String} {p : NounPhrase} :
    ofWords? words = some p ↔ words = p.adjectives ++ [p.noun] := by
  rw [ofWords?]
  constructor
  · intro h
    split at h
    · rename_i noun hlast
      cases h
      exact (List.dropLast_append_getLast? noun hlast).symm
    · cases h
  · rintro rfl
    simp

theorem describes_iff {p : NounPhrase} {o : GameObject} :
    p.describes o = true ↔ o.AnswersTo (p.adjectives ++ [p.noun]) := by
  rw [describes, Bool.and_eq_true, List.all_eq_true, GameObject.answersTo_append]
  simp only [GameObject.hasSynonym, GameObject.hasAdjective, any_sameLetters]

theorem mem_matching {w : World} {scope : List ObjectId} {test : GameObject → Bool}
    {x : ObjectId} :
    x ∈ matching w scope test ↔
      x ∈ scope ∧ ∃ object, w.object? x = some object ∧ test object = true := by
  rw [matching, List.mem_filter]
  cases w.object? x <;> simp

/-- The candidates for a phrase are the objects in scope that fit it. -/
theorem mem_candidates {p : NounPhrase} {w : World} {scope : List ObjectId} {x : ObjectId} :
    x ∈ p.candidates w scope ↔
      x ∈ scope ∧ w.Matches scope (p.adjectives ++ [p.noun]) x := by
  have hfound : ∀ y, y ∈ matching w scope p.describes ↔ y ∈ scope ∧
      ∃ object, w.object? y = some object ∧ object.AnswersTo (p.adjectives ++ [p.noun]) := by
    intro y
    simp only [mem_matching, describes_iff]
  rw [candidates]
  by_cases hretry : matching w scope p.describes = [] ∧ p.adjectives = []
  -- nothing answers to a single word, so it is taken as an adjective
  · obtain ⟨hempty, hsingle⟩ := hretry
    have hnone : ∀ y ∈ scope, ∀ other, w.object? y = some other →
        ¬ other.AnswersTo (p.adjectives ++ [p.noun]) := by
      intro y hy other hother h
      have hmem := (hfound y).mpr ⟨hy, other, hother, h⟩
      rw [hempty] at hmem
      cases hmem
    rw [if_pos (by simp [hempty, hsingle]), mem_matching]
    refine and_congr_right fun hx => ⟨?_, ?_⟩
    · rintro ⟨object, hobject, h⟩
      refine .described (by rw [hsingle]; rfl) (fun y hy other hother hnoun => ?_) hobject
        (any_sameLetters.mp h)
      refine hnone y hy other hother (GameObject.answersTo_append.mpr ⟨hnoun, ?_⟩)
      rw [hsingle]
      exact nofun
    · rintro (⟨hobject, h⟩ | ⟨hwords, -, hobject, h⟩)
      · exact absurd h (hnone x hx _ hobject)
      · rw [hsingle] at hwords
        cases hwords
        exact ⟨_, hobject, any_sameLetters.mpr h⟩
  · rw [if_neg (by simpa using hretry), hfound]
    refine and_congr_right fun hx => ⟨?_, ?_⟩
    · rintro ⟨object, hobject, h⟩
      exact .called hobject h
    · rintro (⟨hobject, h⟩ | @⟨_, word, hwords, hnoun, -, -⟩)
      · exact ⟨_, hobject, h⟩
      -- a single word that is no object's noun would have been tried as an adjective
      · exfalso
        have hsplit : p.adjectives ++ [p.noun] = [] ++ [word] := hwords
        obtain ⟨hsingle, hlast⟩ := List.append_inj' hsplit rfl
        cases hlast
        refine hretry ⟨List.eq_nil_iff_forall_not_mem.mpr fun y hy => ?_, hsingle⟩
        obtain ⟨hscope, other, hother, h⟩ := (hfound y).mp hy
        exact hnoun y hscope other hother (GameObject.answersTo_append.mp h).1

theorem candidates_sublist (p : NounPhrase) (w : World) (scope : List ObjectId) :
    (p.candidates w scope).Sublist scope := by
  rw [candidates]
  split
  · exact List.filter_sublist
  · exact List.filter_sublist

theorem resolve_eq_unique {p : NounPhrase} {w : World} {scope : List ObjectId} {o : ObjectId}
    (h : p.resolve w scope = .unique o) : p.candidates w scope = [o] := by
  rw [resolve] at h
  split at h
  · cases h
  · rename_i hone
    cases h
    exact hone
  · cases h

theorem resolve_eq_ambiguous {p : NounPhrase} {w : World} {scope candidates : List ObjectId}
    (h : p.resolve w scope = .ambiguous candidates) :
    p.candidates w scope = candidates ∧ 2 ≤ candidates.length := by
  rw [resolve] at h
  split at h
  · cases h
  · cases h
  · rename_i hnil hone
    cases h
    refine ⟨rfl, ?_⟩
    rcases hcs : p.candidates w scope with _ | ⟨c, _ | ⟨d, cs⟩⟩
    · exact absurd hcs hnil
    · exact absurd hcs (hone c)
    · exact Nat.le_add_left 2 cs.length

end NounPhrase

/-! ### The answer to a phrase -/

/-- `o` is in scope, fits a phrase, and is the only object in scope that does. -/
structure World.OnlyMatch (w : World) (scope : List ObjectId) (words : List String)
    (o : ObjectId) : Prop where
  inScope : o ∈ scope
  fits : w.Matches scope words o
  unique : ∀ x ∈ scope, w.Matches scope words x → x = o

/-- The candidates are several different objects, and exactly those in scope that fit a phrase, in
the order in which they are in scope. -/
structure World.AllMatches (w : World) (scope : List ObjectId) (words : List String)
    (candidates : List ObjectId) : Prop where
  several : 2 ≤ candidates.length
  nodup : candidates.Nodup
  inOrder : candidates.Sublist scope
  mem_iff : ∀ x, x ∈ candidates ↔ x ∈ scope ∧ w.Matches scope words x

namespace CommandReader

theorem resolvePhrase_eq_object {w : World} {scope : List ObjectId} {words : List String}
    {o : ObjectId} (h : resolvePhrase w scope words = .ok (.object o)) :
    w.OnlyMatch scope words o := by
  rw [resolvePhrase] at h
  split at h
  · cases h
  rename_i phrase hphrase
  rw [NounPhrase.ofWords?_eq_some_iff.mp hphrase]
  split at h
  · rename_i hunique
    cases h
    have hmem : ∀ x, x ∈ [o] ↔
        x ∈ scope ∧ w.Matches scope (phrase.adjectives ++ [phrase.noun]) x := by
      intro x
      rw [← NounPhrase.resolve_eq_unique hunique]
      exact NounPhrase.mem_candidates
    obtain ⟨hscope, hfits⟩ := (hmem o).mp List.mem_cons_self
    exact ⟨hscope, hfits, fun x hx hmatch => List.mem_singleton.mp ((hmem x).mpr ⟨hx, hmatch⟩)⟩
  · cases h
  · cases h

/-- The only other answers are a question that names all objects that fit, and a complaint. -/
theorem resolvePhrase_eq_error {w : World} {scope : List ObjectId} (hscope : scope.Nodup)
    {words : List String} {answer : Resolution}
    (h : resolvePhrase w scope words = .error answer) :
    (∃ candidates, answer = .which (" ".intercalate (words.map lowercase)) candidates ∧
      w.AllMatches scope words candidates) ∨
    ∃ phrase, answer = .notUnderstood phrase := by
  rw [resolvePhrase] at h
  split at h
  · cases h
  rename_i phrase hphrase
  rw [NounPhrase.ofWords?_eq_some_iff.mp hphrase]
  split at h
  · cases h
  · rename_i candidates hambiguous
    cases h
    obtain ⟨hcandidates, hseveral⟩ := NounPhrase.resolve_eq_ambiguous hambiguous
    have horder : candidates.Sublist scope := hcandidates ▸ phrase.candidates_sublist w scope
    refine .inl ⟨candidates, rfl, hseveral, horder.nodup hscope, horder, fun x => ?_⟩
    rw [← hcandidates]
    exact NounPhrase.mem_candidates
  · cases h
    exact .inr ⟨_, rfl⟩

theorem answer_ne_parsed {w : World} {scope : List ObjectId} (hscope : scope.Nodup)
    {words : List String} {answer : Resolution}
    (h : resolvePhrase w scope words = .error answer) (c : Command) : answer ≠ .parsed c := by
  obtain ⟨candidates, rfl, -⟩ | ⟨phrase, rfl⟩ := resolvePhrase_eq_error hscope h <;> exact nofun

/-! ### How a line is divided -/

/-- The words of a line are a verb phrase, the phrase of the direct object up to the first
preposition, and behind that the phrase of the indirect object.  The verb phrase is the longest of
a rule with which the words begin. -/
structure Divides (i : CommandReader) (words : List String) (p : Phrases) : Prop where
  verb : ∃ verb, words = verb ++ (p.direct ++ (p.preposition.toList ++ p.indirect)) ∧
    (∃ rule ∈ i.vocabulary.rules, i.vocabulary.fits words rule = true ∧
      rule.verbPhrase.length = verb.length) ∧
    ∀ rule ∈ i.vocabulary.rules, i.vocabulary.fits words rule = true →
      rule.verbPhrase.length ≤ verb.length
  direct : ∀ word ∈ p.direct, i.vocabulary.isPreposition word = false
  preposition : ∀ word, p.preposition = some word → i.vocabulary.isPreposition word = true
  indirect : p.preposition = none → p.indirect = []

theorem append_phrases (i : CommandReader) (words : List String) :
    (i.phrases words).direct ++
      ((i.phrases words).preposition.toList ++ (i.phrases words).indirect) = words := by
  have hsplit := List.takeWhile_append_dropWhile (p := (! i.vocabulary.isPreposition ·))
    (l := words)
  rw [phrases]
  split
  · rename_i hnone
    rw [hnone] at hsplit
    exact hsplit
  · rename_i preposition indirect hsome
    rw [hsome] at hsplit
    exact hsplit

theorem isPreposition_direct (i : CommandReader) (words : List String) :
    ∀ word ∈ (i.phrases words).direct, i.vocabulary.isPreposition word = false := by
  intro word hword
  have hdirect : (i.phrases words).direct = words.takeWhile (! i.vocabulary.isPreposition ·) := by
    rw [phrases]
    split <;> rfl
  rw [hdirect] at hword
  simpa using List.mem_takeWhile_imp hword

theorem isPreposition_preposition (i : CommandReader) (words : List String) :
    ∀ word, (i.phrases words).preposition = some word →
      i.vocabulary.isPreposition word = true := by
  intro word hword
  rw [phrases] at hword
  split at hword
  · cases hword
  · rename_i preposition indirect hsome
    cases hword
    have hhead := List.head?_dropWhile_not (! i.vocabulary.isPreposition ·) words
    rw [hsome] at hhead
    simpa using hhead

theorem indirect_of_preposition_eq_none {i : CommandReader} {words : List String}
    (h : (i.phrases words).preposition = none) : (i.phrases words).indirect = [] := by
  rw [phrases] at h ⊢
  split at h
  · rfl
  · cases h

end CommandReader

/-- A verb phrase at the front of some words is not longer than they are. -/
theorem Vocabulary.length_le_of_fits {v : Vocabulary} {words : List String} {rule : CommandRule}
    (h : v.fits words rule = true) : rule.verbPhrase.length ≤ words.length := by
  cases words with
  | nil => cases h
  | cons first rest =>
    rw [Vocabulary.fits, Bool.and_eq_true, List.isPrefixOf_iff_prefix] at h
    exact Nat.succ_le_succ h.2.length_le

theorem Vocabulary.longest_eq_some {v : Vocabulary} {words : List String} {found : RuleMatch}
    (h : v.longest words = some found) :
    (∃ rule ∈ v.rules, v.fits words rule = true ∧ rule.verbPhrase.length = found.consumed) ∧
    ∀ rule ∈ v.rules, v.fits words rule = true → rule.verbPhrase.length ≤ found.consumed := by
  rw [Vocabulary.longest] at h
  split at h
  · cases h
  · rename_i consumed hmax
    cases h
    obtain ⟨hmem, hle⟩ := List.max?_eq_some_iff.mp hmax
    constructor
    · obtain ⟨rule, hrule, hlength⟩ := List.mem_map.mp hmem
      obtain ⟨hrules, hfits⟩ := List.mem_filter.mp hrule
      exact ⟨rule, hrules, hfits, hlength⟩
    · intro rule hrule hfits
      exact hle _ (List.mem_map_of_mem (List.mem_filter.mpr ⟨hrule, hfits⟩))

namespace CommandReader

theorem divides_phrases {i : CommandReader} {words : List String} {found : RuleMatch}
    (h : i.vocabulary.longest words = some found) :
    i.Divides words (i.phrases (words.drop found.consumed)) := by
  obtain ⟨⟨rule, hrule, hfits, hlength⟩, hlongest⟩ := Vocabulary.longest_eq_some h
  have htaken : (words.take found.consumed).length = found.consumed := by
    have := Vocabulary.length_le_of_fits hfits
    rw [List.length_take]
    omega
  refine ⟨⟨words.take found.consumed, ?_, ⟨rule, hrule, hfits, ?_⟩, fun other hother hfits => ?_⟩,
    i.isPreposition_direct _, i.isPreposition_preposition _, indirect_of_preposition_eq_none⟩
  · rw [append_phrases, List.take_append_drop]
  · rw [htaken, hlength]
  · rw [htaken]
    exact hlongest other hother hfits

/-- Words that carry meaning are a direction to go in, the phrases of a rule, or nothing that is
understood. -/
theorem resolveWords_cases (i : CommandReader) (w : World) (words : List String) :
    (∃ direction, i.resolveWords w words = .parsed (i.movement direction)) ∨
    (∃ rule p, i.Divides words p ∧ i.resolveWords w words = i.complete w rule p) ∨
    ∃ phrase, i.resolveWords w words = .notUnderstood phrase := by
  rw [resolveWords.eq_def]
  split
  · exact .inr (.inr ⟨_, rfl⟩)
  split
  · exact .inl ⟨_, rfl⟩
  split
  · exact .inr (.inr ⟨_, rfl⟩)
  rename_i found hfound
  dsimp only
  split
  · exact .inr (.inr ⟨_, rfl⟩)
  · exact .inr (.inl ⟨_, _, divides_phrases hfound, rfl⟩)

/-- A command is complete when both phrases have a value. -/
theorem complete_eq_parsed {i : CommandReader} {w : World} {rule : CommandRule} {p : Phrases}
    {c : Command} (hscope : (i.scope w).Nodup) (h : i.complete w rule p = .parsed c) :
    resolvePhrase w (i.scope w) p.direct = .ok c.direct ∧
    resolvePhrase w (i.scope w) p.indirect = .ok c.indirect := by
  rw [complete] at h
  split at h
  · rename_i answer hdirect
    exact absurd h (answer_ne_parsed hscope hdirect c)
  · rename_i direct hdirect
    split at h
    · rename_i answer hindirect
      exact absurd h (answer_ne_parsed hscope hindirect c)
    · rename_i indirect hindirect
      cases h
      exact ⟨hdirect, hindirect⟩

/-- A question is about one of the two phrases. -/
theorem complete_eq_which {i : CommandReader} {w : World} {rule : CommandRule} {p : Phrases}
    {phrase : String} {candidates : List ObjectId}
    (h : i.complete w rule p = .which phrase candidates) :
    ∃ words, (words = p.direct ∨ words = p.indirect) ∧
      resolvePhrase w (i.scope w) words = .error (.which phrase candidates) := by
  rw [complete] at h
  split at h
  · rename_i answer hdirect
    exact ⟨p.direct, .inl rfl, h ▸ hdirect⟩
  · split at h
    · rename_i answer hindirect
      exact ⟨p.indirect, .inr rfl, h ▸ hindirect⟩
    · cases h

theorem resolve_eq_parsed {i : CommandReader} {w : World} {input : String} {c : Command}
    (hscope : (i.scope w).Nodup) (h : i.resolve w input = .parsed c) :
    (∃ direction, c = i.movement direction) ∨
    ∃ p, i.Divides (i.meaningfulWords input) p ∧
      resolvePhrase w (i.scope w) p.direct = .ok c.direct ∧
      resolvePhrase w (i.scope w) p.indirect = .ok c.indirect := by
  rw [resolve] at h
  obtain ⟨direction, hcase⟩ | ⟨rule, p, hdivides, hcase⟩ | ⟨phrase, hcase⟩ :=
    i.resolveWords_cases w (i.meaningfulWords input) <;> rw [hcase] at h
  · cases h
    exact .inl ⟨direction, rfl⟩
  · exact .inr ⟨p, hdivides, complete_eq_parsed hscope h⟩
  · cases h

/-- A line is never read by a guess.  An object in a command is in scope, fits the phrase that the
line has in its place, and is the only object in scope that does.  A question which object is
meant offers at least two different objects: all in scope that fit the phrase, in order. -/
theorem resolve_never_guesses (i : CommandReader) {w : World} (hf : w.Forest) (input : String) :
    (∀ c o, i.resolve w input = .parsed c → c.direct = .object o →
      ∃ p, i.Divides (i.meaningfulWords input) p ∧ w.OnlyMatch (i.scope w) p.direct o) ∧
    (∀ c o, i.resolve w input = .parsed c → c.indirect = .object o →
      ∃ p, i.Divides (i.meaningfulWords input) p ∧ w.OnlyMatch (i.scope w) p.indirect o) ∧
    ∀ phrase candidates, i.resolve w input = .which phrase candidates →
      ∃ p words, i.Divides (i.meaningfulWords input) p ∧ (words = p.direct ∨ words = p.indirect) ∧
        phrase = " ".intercalate (words.map lowercase) ∧
        w.AllMatches (i.scope w) words candidates := by
  have hscope : (i.scope w).Nodup := hf.nodup_visibleObjects _ _
  refine ⟨?_, ?_, ?_⟩
  · intro c o hparsed hdirect
    obtain ⟨direction, rfl⟩ | ⟨p, hdivides, hvalue, -⟩ := resolve_eq_parsed hscope hparsed
    -- a direction is a name, not an object
    · cases hdirect
    · rw [hdirect] at hvalue
      exact ⟨p, hdivides, resolvePhrase_eq_object hvalue⟩
  · intro c o hparsed hindirect
    obtain ⟨direction, rfl⟩ | ⟨p, hdivides, -, hvalue⟩ := resolve_eq_parsed hscope hparsed
    · cases hindirect
    · rw [hindirect] at hvalue
      exact ⟨p, hdivides, resolvePhrase_eq_object hvalue⟩
  · intro phrase candidates hwhich
    rw [resolve] at hwhich
    obtain ⟨direction, hcase⟩ | ⟨rule, p, hdivides, hcase⟩ | ⟨text, hcase⟩ :=
      i.resolveWords_cases w (i.meaningfulWords input) <;> rw [hcase] at hwhich
    · cases hwhich
    · obtain ⟨words, hwords, hanswer⟩ := complete_eq_which hwhich
      obtain ⟨all, heq, hmatches⟩ | ⟨text, heq⟩ := resolvePhrase_eq_error hscope hanswer
      · cases heq
        exact ⟨p, words, hdivides, hwords, rfl, hmatches⟩
      · cases heq
    · cases hwhich

end CommandReader

theorem Value.eq_object_of_object? {v : Value} {o : ObjectId} (h : v.object? = some o) :
    v = .object o := by
  cases v <;> cases h
  rfl

/-- The objects in the two places of a command. -/
def Resolution.objects? : Resolution → Option (Option ObjectId × Option ObjectId)
  | .parsed c => some (c.direct.object?, c.indirect.object?)
  | _ => none

theorem Resolution.exists_of_objects? {answer : Resolution} {direct indirect : ObjectId}
    (h : answer.objects? = some (some direct, some indirect)) :
    ∃ c, answer = .parsed c ∧ c.direct = .object direct ∧ c.indirect = .object indirect := by
  cases answer with
  | parsed c =>
    obtain ⟨hdirect, hindirect⟩ := Prod.mk.inj (Option.some.inj h)
    exact ⟨c, rfl, Value.eq_object_of_object? hdirect, Value.eq_object_of_object? hindirect⟩
  | which => cases h
  | notUnderstood => cases h

/-- What a question offers, and the phrase it is about. -/
def Resolution.choice? : Resolution → Option (String × List ObjectId)
  | .which phrase candidates => some (phrase, candidates)
  | _ => none

theorem Resolution.eq_which_of_choice? {answer : Resolution} {phrase : String}
    {candidates : List ObjectId} (h : answer.choice? = some (phrase, candidates)) :
    answer = .which phrase candidates := by
  cases answer <;> cases h
  rfl

/-- A declaration made of words. -/
def declaredWords (name : String) (words : List String) : Node :=
  .form name (words.map fun word => .atom word default) default

/-- The attic, with things to do to what is in it. -/
def furnishedAttic : List Node :=
  attic ++ [declaredWords "GLOBAL" ["WINNER", "PLAYER"], declaredWords "BUZZ" ["THE"],
    declaredWords "SYNTAX" ["TAKE", "OBJECT", "=", "V-TAKE"],
    declaredWords "SYNTAX" ["PUT", "OBJECT", "IN", "OBJECT", "=", "V-PUT"]]

/-- The brass lamp is the only object that "brass lamp" fits, and the sack the only one that "sack"
fits, but "lamp" alone fits both lamps. -/
theorem resolve_never_guesses_attic :
    ∃ g : Game, load .standard 9 furnishedAttic = .done g ∧ g.machine.world.Forest ∧
      (∃ p, g.reader.Divides (g.reader.meaningfulWords "put the brass lamp in the sack") p ∧
        g.machine.world.OnlyMatch (g.reader.scope g.machine.world) p.direct ⟨3⟩) ∧
      (∃ p, g.reader.Divides (g.reader.meaningfulWords "put the brass lamp in the sack") p ∧
        g.machine.world.OnlyMatch (g.reader.scope g.machine.world) p.indirect ⟨2⟩) ∧
      ∃ p words, g.reader.Divides (g.reader.meaningfulWords "take lamp") p ∧
        (words = p.direct ∨ words = p.indirect) ∧
        "lamp" = " ".intercalate (words.map lowercase) ∧
        g.machine.world.AllMatches (g.reader.scope g.machine.world) words [⟨3⟩, ⟨4⟩] := by
  have hpasses : (load .standard 9 furnishedAttic).passes (fun g =>
      (g.reader.resolve g.machine.world "put the brass lamp in the sack").objects? ==
        some (some ⟨3⟩, some ⟨2⟩) &&
      (g.reader.resolve g.machine.world "take lamp").choice? ==
        some ("lamp", [⟨3⟩, ⟨4⟩])) = true := by
    decide +kernel
  obtain ⟨g, hload, htest⟩ := Outcome.exists_of_passes hpasses
  obtain ⟨hput, htake⟩ := Bool.and_eq_true_iff.mp htest
  obtain ⟨c, hparsed, hdirect, hindirect⟩ := Resolution.exists_of_objects? (eq_of_beq hput)
  have hwhich := Resolution.eq_which_of_choice? (eq_of_beq htake)
  have hforest := (World.Reachable.load hload).forest
  have hput := g.reader.resolve_never_guesses hforest "put the brass lamp in the sack"
  have htake := g.reader.resolve_never_guesses hforest "take lamp"
  exact ⟨g, hload, hforest, hput.1 c _ hparsed hdirect, hput.2.1 c _ hparsed hindirect,
    htake.2.2 _ _ hwhich⟩

end TextAdventure
