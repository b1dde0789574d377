import TextAdventure.Proofs.Command.Reference

/-!
The places of a command that a rule fills.

A rule says how many objects a command has, not in which places they stand: what stands in front of
the first preposition is the direct object and what stands behind it the indirect one, and every
rule adds its prepositions to those of all others.

* `CommandReader.Chooses` — the rule that is chosen for some words, and the words it leaves;
* `CommandReader.direct_eq_nil_iff` — no direct object is named when these begin with a preposition;
* `CommandReader.resolve_fills_places` — a command has as many objects as its rule, and the direct
  place stays empty beside an indirect object only when a preposition follows the verb phrase;
* `CommandReader.resolve_take_in` — a rule of one object that fills the indirect place.
-/

namespace TextAdventure

theorem NounPhrase.ofWords?_eq_none {words : List String} (h : ofWords? words = none) :
    words = [] := by
  rw [ofWords?] at h
  split at h
  · cases h
  · rename_i hlast
    exact List.getLast?_eq_none_iff.mp hlast

/-- Only a rule for the given number of objects is selected. -/
theorem RuleMatch.objects_of_select {found : RuleMatch} {preposition : Option String}
    {objects : Nat} {rule : CommandRule} (h : found.select preposition objects = some rule) :
    rule.objects = objects := by
  have hmem : rule ∈ found.rules.filter (·.objects == objects) := by
    rw [RuleMatch.select] at h
    split at h
    · rename_i first hfirst
      cases h
      exact List.mem_of_find?_eq_some hfirst
    · exact List.mem_of_mem_head? h
  exact eq_of_beq (List.mem_filter.mp hmem).2

namespace CommandReader

/-! ### From phrases to places -/

/-- A place stays empty when its phrase has no words, and otherwise gets an object. -/
theorem resolvePhrase_eq_ok {w : World} {scope : List ObjectId} {words : List String} {v : Value}
    (h : resolvePhrase w scope words = .ok v) :
    (words = [] ∧ v = .bool false) ∨ (words ≠ [] ∧ ∃ o, v = .object o) := by
  rw [resolvePhrase] at h
  split at h
  · rename_i hnone
    cases h
    exact .inl ⟨NounPhrase.ofWords?_eq_none hnone, rfl⟩
  · rename_i phrase hphrase
    have hne : words ≠ [] := by
      rintro rfl
      cases hphrase
    split at h
    · cases h
      exact .inr ⟨hne, _, rfl⟩
    · cases h
    · cases h

theorem error_ne_parsed {w : World} {scope : List ObjectId} {words : List String}
    {answer : Resolution} (h : resolvePhrase w scope words = .error answer) (c : Command) :
    answer ≠ .parsed c := by
  rw [resolvePhrase] at h
  rintro rfl
  split at h
  · cases h
  · split at h <;> cases h

/-- A command has the routines of its rule and the objects of its phrases. -/
structure Completes (i : CommandReader) (w : World) (rule : CommandRule) (p : Phrases)
    (c : Command) : Prop where
  verb : c.verb = rule.verb
  action : c.action = some rule.action
  preAction : c.preAction = rule.preAction
  direct : resolvePhrase w (i.scope w) p.direct = .ok c.direct
  indirect : resolvePhrase w (i.scope w) p.indirect = .ok c.indirect

theorem completes_of_complete {i : CommandReader} {w : World} {rule : CommandRule} {p : Phrases}
    {c : Command} (h : i.complete w rule p = .parsed c) : i.Completes w rule p c := by
  rw [complete] at h
  split at h
  · rename_i answer hdirect
    exact absurd h (error_ne_parsed hdirect c)
  · rename_i direct hdirect
    split at h
    · rename_i answer hindirect
      exact absurd h (error_ne_parsed hindirect c)
    · rename_i indirect hindirect
      cases h
      exact ⟨rfl, rfl, rfl, hdirect, hindirect⟩

section

variable {i : CommandReader} {w : World} {rule : CommandRule} {p : Phrases} {c : Command}

/-- As many places hold an object as phrases have words. -/
theorem Completes.count (h : i.Completes w rule p c) :
    [c.direct, c.indirect].countP (·.object?.isSome) = objectCount p := by
  rw [objectCount]
  obtain ⟨hdirect, hd⟩ | ⟨hdirect, o, hd⟩ := resolvePhrase_eq_ok h.direct
  all_goals obtain ⟨hindirect, hi⟩ | ⟨hindirect, o', hi⟩ := resolvePhrase_eq_ok h.indirect
  all_goals simp [hdirect, hindirect, hd, hi, Value.object?]

/-- A place without an object is false. -/
theorem Completes.eq_false (h : i.Completes w rule p c) :
    ∀ v ∈ [c.direct, c.indirect], v.object? = none → v = .bool false := by
  have hplace {words : List String} {v : Value}
      (hv : resolvePhrase w (i.scope w) words = .ok v) (hnone : v.object? = none) :
      v = .bool false := by
    obtain ⟨-, hfalse⟩ | ⟨-, o, rfl⟩ := resolvePhrase_eq_ok hv
    · exact hfalse
    · cases hnone
  intro v hv
  rcases List.mem_cons.mp hv with rfl | hv
  · exact hplace h.direct
  · rw [List.mem_singleton.mp hv]
    exact hplace h.indirect

/-- A place holds an object when its phrase has words. -/
theorem resolvePhrase_object_iff {scope : List ObjectId} {words : List String} {v : Value}
    (h : resolvePhrase w scope words = .ok v) : (∃ o, v = .object o) ↔ words ≠ [] := by
  obtain ⟨rfl, rfl⟩ | ⟨hne, hobject⟩ := resolvePhrase_eq_ok h
  · exact ⟨nofun, fun hne => absurd rfl hne⟩
  · exact ⟨fun _ => hne, fun _ => hobject⟩

/-- Of the two places of a command with one object, the other one is false. -/
theorem Completes.one (h : i.Completes w rule p c) (hone : objectCount p = 1) :
    (p.direct ≠ [] → (∃ o, c.direct = .object o) ∧ c.indirect = .bool false) ∧
    (p.direct = [] → c.direct = .bool false ∧ ∃ o, c.indirect = .object o) := by
  rw [objectCount] at hone
  obtain ⟨hdirect, hd⟩ | ⟨hdirect, hd⟩ := resolvePhrase_eq_ok h.direct
  all_goals obtain ⟨hindirect, hi⟩ | ⟨hindirect, hi⟩ := resolvePhrase_eq_ok h.indirect
  · simp [hdirect, hindirect] at hone
  · exact ⟨fun hne => absurd hdirect hne, fun _ => ⟨hd, hi⟩⟩
  · exact ⟨fun _ => ⟨hd, hi⟩, fun hnil => absurd hnil hdirect⟩
  · simp [hdirect, hindirect] at hone

end

/-! ### The rule and the words it leaves -/

/-- The rule is the one chosen for some words, and the other words stand behind its verb phrase. -/
def Chooses (i : CommandReader) (words : List String) (rule : CommandRule)
    (behind : List String) : Prop :=
  ∃ found, i.vocabulary.longest words = some found ∧ words.drop found.consumed = behind ∧
    found.select (i.phrases behind).preposition (objectCount (i.phrases behind)) = some rule

theorem Chooses.objects {i : CommandReader} {words behind : List String} {rule : CommandRule}
    (h : i.Chooses words rule behind) : rule.objects = objectCount (i.phrases behind) := by
  obtain ⟨found, -, -, hselect⟩ := h
  exact RuleMatch.objects_of_select hselect

/-- Some words begin with a preposition. -/
def BeginsWithPreposition (i : CommandReader) (words : List String) : Prop :=
  ∃ first ∈ words.head?, i.vocabulary.isPreposition first = true

instance (i : CommandReader) (words : List String) : Decidable (i.BeginsWithPreposition words) :=
  inferInstanceAs (Decidable (∃ first ∈ words.head?, _))

/-- There is no phrase for the direct object when there are no words or the first of them is a
preposition. -/
theorem direct_eq_nil_iff (i : CommandReader) (words : List String) :
    (i.phrases words).direct = [] ↔ words = [] ∨ i.BeginsWithPreposition words := by
  have hsplit := i.append_phrases words
  constructor
  · intro hdirect
    rw [hdirect, List.nil_append] at hsplit
    cases hpreposition : (i.phrases words).preposition with
    | none =>
      rw [hpreposition, indirect_of_preposition_eq_none hpreposition] at hsplit
      exact .inl hsplit.symm
    | some preposition =>
      rw [hpreposition] at hsplit
      refine .inr ⟨preposition, ?_, i.isPreposition_preposition words _ hpreposition⟩
      rw [← hsplit]
      rfl
  · rintro (rfl | ⟨first, hfirst, hpreposition⟩)
    · exact (List.append_eq_nil_iff.mp hsplit).1
    · cases hdirect : (i.phrases words).direct with
      | nil => rfl
      | cons word more =>
        have hword := i.isPreposition_direct words word (hdirect ▸ List.mem_cons_self)
        rw [← hsplit, hdirect] at hfirst
        cases hfirst
        rw [hpreposition] at hword
        cases hword

/-- A preposition in front leaves nothing for the direct object, and the words behind it are the
phrase for the indirect one. -/
theorem phrases_cons_of_isPreposition {i : CommandReader} {preposition : String}
    (h : i.vocabulary.isPreposition preposition = true) (rest : List String) :
    i.phrases (preposition :: rest) = ⟨[], some preposition, rest⟩ := by
  have hstop : (! i.vocabulary.isPreposition preposition) = false := by
    rw [h]
    rfl
  simp only [phrases, List.takeWhile_cons, List.dropWhile_cons, hstop, Bool.false_eq_true, if_false]

/-- A line that is a command but not a direction to go in is completed by the rule chosen for
it. -/
theorem completes_of_resolve {i : CommandReader} {w : World} {input : String} {c : Command}
    (hparsed : i.resolve w input = .parsed c)
    (hrule : i.heading? (i.meaningfulWords input) = none) :
    ∃ rule behind, i.Chooses (i.meaningfulWords input) rule behind ∧
      i.Completes w rule (i.phrases behind) c := by
  rw [resolve, resolveWords.eq_def] at hparsed
  split at hparsed
  · cases hparsed
  rw [hrule] at hparsed
  dsimp only at hparsed
  split at hparsed
  · cases hparsed
  rename_i found hfound
  split at hparsed
  · cases hparsed
  rename_i rule hselect
  exact ⟨rule, _, ⟨found, hfound, rfl, hselect⟩, completes_of_complete hparsed⟩

/-- A line that is a command by a rule fills as many places as the rule has objects, and leaves the
others false.  The direct place is filled when words stand behind the verb phrase and do not begin
with a preposition.  So an indirect object has a direct one beside it unless a preposition follows
the verb phrase, and the one object of a rule is the direct one unless a preposition follows, and
then it is the indirect one: the words behind the preposition are its phrase. -/
theorem resolve_fills_places (i : CommandReader) (w : World) (input : String) {c : Command}
    (hparsed : i.resolve w input = .parsed c)
    (hrule : i.heading? (i.meaningfulWords input) = none) :
    ∃ rule behind, i.Chooses (i.meaningfulWords input) rule behind ∧
      c.verb = rule.verb ∧ c.action = some rule.action ∧ c.preAction = rule.preAction ∧
      [c.direct, c.indirect].countP (·.object?.isSome) = rule.objects ∧
      (∀ v ∈ [c.direct, c.indirect], v.object? = none → v = .bool false) ∧
      ((∃ o, c.direct = .object o) ↔ behind ≠ [] ∧ ¬ i.BeginsWithPreposition behind) ∧
      (∀ o, c.indirect = .object o → ¬ i.BeginsWithPreposition behind →
        ∃ o', c.direct = .object o') ∧
      (∀ preposition rest, behind = preposition :: rest →
        i.vocabulary.isPreposition preposition = true →
        c.direct = .bool false ∧ resolvePhrase w (i.scope w) rest = .ok c.indirect) ∧
      (rule.objects = 1 →
        (¬ i.BeginsWithPreposition behind →
          (∃ o, c.direct = .object o) ∧ c.indirect = .bool false) ∧
        (i.BeginsWithPreposition behind →
          c.direct = .bool false ∧ ∃ o, c.indirect = .object o)) := by
  obtain ⟨rule, behind, hchooses, hcompletes⟩ := completes_of_resolve hparsed hrule
  have hnil := i.direct_eq_nil_iff behind
  have hdirect : (∃ o, c.direct = .object o) ↔ behind ≠ [] ∧ ¬ i.BeginsWithPreposition behind := by
    rw [resolvePhrase_object_iff hcompletes.direct, ne_eq, hnil, not_or]
  refine ⟨rule, behind, hchooses, hcompletes.verb, hcompletes.action, hcompletes.preAction,
    hcompletes.count.trans hchooses.objects.symm, hcompletes.eq_false, hdirect, ?_, ?_, ?_⟩
  · intro o hindirect hbegins
    refine hdirect.mpr ⟨?_, hbegins⟩
    rintro rfl
    exact (resolvePhrase_object_iff hcompletes.indirect).mp ⟨o, hindirect⟩ rfl
  · rintro preposition rest rfl hpreposition
    have hphrases := phrases_cons_of_isPreposition hpreposition rest
    rw [hphrases] at hcompletes
    obtain ⟨-, hfalse⟩ | ⟨hne, -⟩ := resolvePhrase_eq_ok hcompletes.direct
    · exact ⟨hfalse, hcompletes.indirect⟩
    · exact absurd rfl hne
  · intro hone
    rw [hchooses.objects] at hone
    obtain ⟨hfilled, hempty⟩ := hcompletes.one hone
    refine ⟨fun hbegins => hfilled fun hnone => ?_,
      fun hbegins => hempty (hnil.mpr (.inr hbegins))⟩
    obtain rfl | hbegins' := hnil.mp hnone
    -- without words behind the verb phrase there would be no object
    · cases hone
    · exact hbegins hbegins'

end CommandReader

theorem Resolution.exists_of_objects?_eq {answer : Resolution} {direct indirect : Option ObjectId}
    (h : answer.objects? = some (direct, indirect)) :
    ∃ c, answer = .parsed c ∧ c.direct.object? = direct ∧ c.indirect.object? = indirect := by
  cases answer with
  | parsed c =>
    obtain ⟨hdirect, hindirect⟩ := Prod.mk.inj (Option.some.inj h)
    exact ⟨c, rfl, hdirect, hindirect⟩
  | which => cases h
  | notUnderstood => cases h

/-- A line names some objects for the two places of a command, and no direction to go in. -/
def Game.LineNames (g : Game) (input : String) (direct indirect : Option ObjectId) : Prop :=
  (g.reader.resolve g.machine.world input).objects? = some (direct, indirect) ∧
    g.reader.heading? (g.reader.meaningfulWords input) = none

instance (g : Game) (input : String) (direct indirect : Option ObjectId) :
    Decidable (g.LineNames input direct indirect) :=
  inferInstanceAs (Decidable (_ ∧ _))

theorem exists_furnishedAttic :
    ∃ g : Game, load .standard 9 furnishedAttic = .done g ∧
      g.LineNames "take sack" (some ⟨2⟩) none ∧ g.LineNames "take in sack" none (some ⟨2⟩) := by
  have hpasses : (load .standard 9 furnishedAttic).passes (fun g =>
      decide (g.LineNames "take sack" (some ⟨2⟩) none ∧
        g.LineNames "take in sack" none (some ⟨2⟩))) = true := by
    decide +kernel
  obtain ⟨g, hload, htest⟩ := Outcome.exists_of_passes hpasses
  exact ⟨g, hload, of_decide_eq_true htest⟩

namespace CommandReader

/-- The sack is the direct object of "take sack", and there is no other. -/
theorem resolve_fills_places_sack :
    ∃ g : Game, load .standard 9 furnishedAttic = .done g ∧
      ∃ c, g.reader.resolve g.machine.world "take sack" = .parsed c ∧
        g.reader.heading? (g.reader.meaningfulWords "take sack") = none ∧
        c.direct = .object ⟨2⟩ ∧ c.indirect = .bool false ∧
        ∃ rule behind, g.reader.Chooses (g.reader.meaningfulWords "take sack") rule behind ∧
          rule.objects = 1 ∧ ¬ g.reader.BeginsWithPreposition behind := by
  obtain ⟨g, hload, ⟨hobjects, hrule⟩, -⟩ := exists_furnishedAttic
  obtain ⟨c, hparsed, hsack, hnone⟩ := Resolution.exists_of_objects?_eq hobjects
  obtain ⟨rule, behind, hchooses, -, -, -, hcount, hfalse, hdirect, -⟩ :=
    g.reader.resolve_fills_places g.machine.world "take sack" hparsed hrule
  have hobject := Value.eq_object_of_object? hsack
  have hempty := hfalse c.indirect (List.mem_cons_of_mem _ List.mem_cons_self) hnone
  refine ⟨g, hload, c, hparsed, hrule, hobject, hempty, rule, behind, hchooses, ?_,
    (hdirect.mp ⟨_, hobject⟩).2⟩
  rw [← hcount, hobject, hempty]
  rfl

/-- By the rule `TAKE OBJECT` the sack is the indirect object of "take in sack": another rule makes
"in" a preposition. -/
theorem resolve_take_in :
    ∃ g : Game, load .standard 9 furnishedAttic = .done g ∧
      ∃ c, g.reader.resolve g.machine.world "take in sack" = .parsed c ∧
        g.reader.heading? (g.reader.meaningfulWords "take in sack") = none ∧
        c.direct = .bool false ∧ c.indirect = .object ⟨2⟩ ∧
        ∃ rule behind, g.reader.Chooses (g.reader.meaningfulWords "take in sack") rule behind ∧
          rule.objects = 1 := by
  obtain ⟨g, hload, -, ⟨hobjects, hrule⟩⟩ := exists_furnishedAttic
  obtain ⟨c, hparsed, hnone, hsack⟩ := Resolution.exists_of_objects?_eq hobjects
  obtain ⟨rule, behind, hchooses, hcompletes⟩ := completes_of_resolve hparsed hrule
  have hempty := hcompletes.eq_false c.direct List.mem_cons_self hnone
  have hobject := Value.eq_object_of_object? hsack
  refine ⟨g, hload, c, hparsed, hrule, hempty, hobject, rule, behind, hchooses, ?_⟩
  rw [hchooses.objects, ← hcompletes.count, hempty, hobject]
  rfl

end CommandReader

end TextAdventure
