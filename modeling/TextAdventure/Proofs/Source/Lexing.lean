import TextAdventure.Source.Token

/-!
How words are told apart, and the tokens of a text.

A bare word is a number when it has the shape of one and an atom otherwise.  Every token of a text
but the last is cut off at a character that is no blank, so what the tokens can be is what
`Lexeme.scan` can yield there.

* `NumberShaped`, `IsName`, `IsAtomName` — the words that are numbers, names and atoms;
* `Lexeme.ofWord_eq_atom_iff` — which words are atoms;
* `Lexeme.ofWord_intText` — the decimal text of an integer is read as that integer;
* `Lexeme.scan_wellFormed` — the names in a token are names, and its atoms are atoms;
* `tokensFrom_eq_append` — the tokens of a text end with its end and hold no other.
-/

namespace TextAdventure

/-! ### Names and numbers -/

/-- A name: at least one character, and every one of them a word character. -/
def IsName (name : String) : Prop := name.toList ≠ [] ∧ ∀ c ∈ name.toList, isWordChar c = true

/-- At least one character, and every one of them a digit. -/
def IsDigits (cs : List Char) : Prop := cs ≠ [] ∧ ∀ c ∈ cs, isDigit c = true

/-- A word with the shape of a number: an optional sign, digits, and optionally a point with more
digits. -/
def NumberShaped (word : List Char) : Prop :=
  ∃ sign whole tail, word = sign ++ (whole ++ tail) ∧ (sign = [] ∨ sign = ['-'] ∨ sign = ['+']) ∧
    IsDigits whole ∧ (tail = [] ∨ ∃ fraction, tail = '.' :: fraction ∧ IsDigits fraction)

/-- A word character with a meaning of its own at the beginning of a word. -/
def isMarkerChar (c : Char) : Bool := ['\'', '\x60', '!', '%', '#', '.', '\\'].contains c

/-- A name that stands for itself: it begins with no marker and is no number. -/
def IsAtomName (name : String) : Prop :=
  IsName name ∧ (∀ c ∈ name.toList.head?, isMarkerChar c = false) ∧ ¬ NumberShaped name.toList

/-! ### Bare words -/

theorem splitSign_of_digit {cs : List Char} (h : ∀ c ∈ cs.head?, isDigit c = true) :
    splitSign cs = (false, cs) := by
  rw [splitSign.eq_def]
  split
  · exact absurd (h '-' rfl) (by decide)
  · exact absurd (h '+' rfl) (by decide)
  · rfl

theorem splitSign_snd_eq (word : List Char) :
    ∃ sign, word = sign ++ (splitSign word).2 ∧ (sign = [] ∨ sign = ['-'] ∨ sign = ['+']) := by
  rw [splitSign.eq_def]
  split
  · exact ⟨['-'], rfl, .inr (.inl rfl)⟩
  · exact ⟨['+'], rfl, .inr (.inr rfl)⟩
  · exact ⟨[], rfl, .inl rfl⟩

/-- A number by the runs of digits that reading it looks at. -/
theorem numberShaped_iff (word : List Char) :
    NumberShaped word ↔ (splitSign word).2.takeWhile isDigit ≠ [] ∧
      ((splitSign word).2.dropWhile isDigit = [] ∨
        ∃ fraction, (splitSign word).2.dropWhile isDigit = '.' :: fraction ∧ IsDigits fraction) := by
  constructor
  · rintro ⟨sign, whole, tail, rfl, hsign, ⟨hne, hwhole⟩, htail⟩
    -- the first digit is no sign, so what is split off is the sign of the shape
    have hsplit : (splitSign (sign ++ (whole ++ tail))).2 = whole ++ tail := by
      rcases hsign with rfl | rfl | rfl
      · rw [List.nil_append, splitSign_of_digit]
        intro c hc
        obtain ⟨d, ds, rfl⟩ := List.exists_cons_of_ne_nil hne
        cases hc
        exact hwhole _ List.mem_cons_self
      · rfl
      · rfl
    have hstop : tail.takeWhile isDigit = [] ∧ tail.dropWhile isDigit = tail := by
      rcases htail with rfl | ⟨fraction, rfl, -⟩
      · exact ⟨rfl, rfl⟩
      · exact ⟨rfl, rfl⟩
    rw [hsplit, List.takeWhile_append_of_pos hwhole, List.dropWhile_append_of_pos hwhole, hstop.1,
      hstop.2, List.append_nil]
    exact ⟨hne, htail⟩
  · rintro ⟨hne, htail⟩
    obtain ⟨sign, hword, hsign⟩ := splitSign_snd_eq word
    refine ⟨sign, _, _, ?_, hsign, ⟨hne, ?_⟩, htail⟩
    · rw [List.takeWhile_append_dropWhile]
      exact hword
    · intro c hc
      exact List.all_eq_true.mp List.all_takeWhile c hc

theorem Lexeme.ofWord_of_not_numberShaped {word : List Char} (h : ¬ NumberShaped word) :
    Lexeme.ofWord word = .atom (String.ofList word) := by
  rw [numberShaped_iff] at h
  rw [Lexeme.ofWord]
  dsimp only
  split
  · rfl
  rename_i hwhole
  rw [List.isEmpty_iff] at hwhole
  split
  · rename_i hrest
    exact absurd ⟨hwhole, .inl hrest⟩ h
  · rename_i fraction hrest
    refine if_neg fun hfraction => h ⟨hwhole, .inr ⟨fraction, hrest, ?_⟩⟩
    simpa [IsDigits] using hfraction
  · rfl

theorem Lexeme.ofWord_of_numberShaped {word : List Char} (h : NumberShaped word) :
    (∃ value, Lexeme.ofWord word = .literal value) ∨
      ∃ fault, Lexeme.ofWord word = .malformed fault := by
  obtain ⟨hwhole, htail⟩ := (numberShaped_iff word).mp h
  rw [Lexeme.ofWord]
  dsimp only
  rw [if_neg (by rwa [List.isEmpty_iff])]
  rcases htail with hnil | ⟨fraction, hpoint, hfraction⟩
  · rw [hnil]
    dsimp only
    split
    · exact .inl ⟨_, rfl⟩
    · exact .inr ⟨_, rfl⟩
  · rw [hpoint]
    exact .inl ⟨_, if_pos (by simpa [IsDigits] using hfraction)⟩

/-- A bare word is an atom exactly when it does not have the shape of a number. -/
theorem Lexeme.ofWord_eq_atom_iff (word : List Char) :
    Lexeme.ofWord word = .atom (String.ofList word) ↔ ¬ NumberShaped word := by
  constructor
  · intro h hnumber
    rcases Lexeme.ofWord_of_numberShaped hnumber with ⟨value, hvalue⟩ | ⟨fault, hfault⟩
    · rw [h] at hvalue
      cases hvalue
    · rw [h] at hfault
      cases hfault
  · exact Lexeme.ofWord_of_not_numberShaped

-- the quantifiers are over the characters of the name, not over all characters.
instance (name : String) : Decidable (IsName name) :=
  @instDecidableAnd _ _ inferInstance (List.decidableBAll _ name.toList)

instance (word : List Char) : Decidable (NumberShaped word) :=
  decidable_of_iff (Lexeme.ofWord word ≠ .atom (String.ofList word))
    (by rw [ne_eq, Lexeme.ofWord_eq_atom_iff, Classical.not_not])

instance (name : String) : Decidable (IsAtomName name) :=
  @instDecidableAnd _ _ inferInstance
    (@instDecidableAnd _ _ (Option.decidableForallMem name.toList.head?) inferInstance)

example : NumberShaped "+7".toList ∧ IsAtomName "1.5.2" ∧ ¬ IsAtomName ".5" := by decide

/-! ### Integers -/

theorem digitsValue_natDigits (n : Nat) : digitsValue (natDigits n) = n := by
  have h := Nat.ofDigitChars_ten_toDigits (n := n)
  rw [Nat.ofDigitChars_eq_foldl] at h
  rw [digitsValue, natDigits]
  simpa only [Nat.mul_comm] using h

theorem isDigits_natDigits (n : Nat) : IsDigits (natDigits n) := by
  refine ⟨Nat.toDigits_ne_nil, ?_⟩
  intro c hc
  have h := Nat.isDigit_of_mem_toDigits (by decide) (by decide) hc
  simpa [Char.isDigit, isDigit, Char.le_def] using h

theorem splitSign_intText (n : Int) :
    splitSign (intText n).toList = (decide (n < 0), natDigits n.natAbs) := by
  rw [intText, String.toList_ofList]
  split
  · rename_i hneg
    rw [decide_eq_true hneg]
    rfl
  · rename_i hneg
    rw [decide_eq_false hneg]
    refine splitSign_of_digit ?_
    intro c hc
    exact (isDigits_natDigits n.natAbs).2 c (List.mem_of_mem_head? hc)

theorem readInt_intText (n : Int64) : readInt (intText n.toInt).toList = .ok n := by
  have hlow := n.le_toInt
  have hhigh := n.toInt_lt
  rw [readInt, splitSign_intText]
  dsimp only
  rw [digitsValue_natDigits, int64OfParts]
  by_cases hneg : n.toInt < 0
  · rw [if_pos (decide_eq_true hneg), if_pos (by omega)]
    rw [show (-(n.toInt.natAbs : Int)) = n.toInt by omega, Int64.ofInt_toInt]
  · rw [if_neg (by simpa using hneg), if_pos (by omega)]
    rw [show (n.toInt.natAbs : Int) = n.toInt by omega, Int64.ofInt_toInt]

theorem Lexeme.ofWord_intText (n : Int64) :
    Lexeme.ofWord (intText n.toInt).toList = .literal (.int n) := by
  obtain ⟨hne, hdigits⟩ := isDigits_natDigits n.toInt.natAbs
  have htake : (natDigits n.toInt.natAbs).takeWhile isDigit = natDigits n.toInt.natAbs := by
    simpa using @List.takeWhile_append_of_pos _ _ _ [] hdigits
  have hdrop : (natDigits n.toInt.natAbs).dropWhile isDigit = [] := by
    simpa using @List.dropWhile_append_of_pos _ _ _ [] hdigits
  rw [Lexeme.ofWord, splitSign_intText]
  dsimp only
  rw [htake, if_neg (by rwa [List.isEmpty_iff]), hdrop]
  dsimp only
  rw [readInt_intText]

/-! ### Tokens -/

/-- The names in a lexeme are names, and an atom is one that stands for itself.  The end of a text
is no part of it. -/
def Lexeme.WellFormed : Lexeme → Prop
  | .atom name => IsAtomName name
  | .reference _ name => IsName name
  | .marker (.tag name) => IsName name
  | .endOfInput => False
  | _ => True

theorem isName_takeWhile {cs : List Char} (h : ¬ (cs.takeWhile isWordChar).isEmpty = true) :
    IsName (String.ofList (cs.takeWhile isWordChar)) := by
  rw [IsName, String.toList_ofList]
  exact ⟨by rwa [List.isEmpty_iff] at h, List.all_eq_true.mp List.all_takeWhile⟩

theorem Lexeme.named_wellFormed (mark : Char) {make : String → Lexeme} (cs : List Char)
    (hmake : ∀ name, IsName name → (make name).WellFormed) :
    (Lexeme.named mark make cs).1.WellFormed := by
  rw [Lexeme.named]
  split
  · trivial
  · rename_i hname
    exact hmake _ (isName_takeWhile hname)

/-- A character that begins a bare word. -/
def startsWord (c : Char) : Bool := isWordChar c && !isMarkerChar c

theorem Lexeme.ofWord_wellFormed {c : Char} {cs : List Char} (hc : startsWord c = true)
    (hcs : ∀ d ∈ cs, isWordChar d = true) : (Lexeme.ofWord (c :: cs)).WellFormed := by
  rw [startsWord, Bool.and_eq_true, Bool.not_eq_true'] at hc
  by_cases hnumber : NumberShaped (c :: cs)
  · rcases Lexeme.ofWord_of_numberShaped hnumber with ⟨value, hvalue⟩ | ⟨fault, hfault⟩
    · rw [hvalue]
      trivial
    · rw [hfault]
      trivial
  · rw [Lexeme.ofWord_of_not_numberShaped hnumber, Lexeme.WellFormed, IsAtomName, IsName,
      String.toList_ofList]
    refine ⟨⟨List.cons_ne_nil _ _, ?_⟩, ?_, hnumber⟩
    · intro d hd
      rcases List.mem_cons.mp hd with rfl | hrest
      · exact hc.1
      · exact hcs d hrest
    · intro d hd
      cases hd
      exact hc.2

theorem Lexeme.scan_wellFormed {c : Char} (hc : isBlank c = false) (cs : List Char) :
    (Lexeme.scan c cs).1.WellFormed := by
  unfold Lexeme.scan
  split
  case h_10 => split <;> trivial
  case h_11 => split <;> trivial
  case h_12 => exact Lexeme.named_wellFormed _ _ fun _ h => h
  case h_13 => exact Lexeme.named_wellFormed _ _ fun _ h => h
  case h_14 => exact Lexeme.named_wellFormed _ _ fun _ h => h
  -- every character that begins a token of another kind has been dealt with
  case h_19 =>
    refine Lexeme.ofWord_wellFormed ?_ (List.all_eq_true.mp List.all_takeWhile)
    simp_all [startsWord, isWordChar, isMarkerChar]
  all_goals trivial

theorem Lexeme.scan_of_startsWord {c : Char} (hc : startsWord c = true) (cs : List Char) :
    Lexeme.scan c cs =
      (Lexeme.ofWord (c :: cs.takeWhile isWordChar), (cs.takeWhile isWordChar).length) := by
  unfold Lexeme.scan
  split
  case h_19 => rfl
  all_goals exact absurd hc (by decide)

/-! ### The tokens of a text -/

/-- The tokens of a text end with its end, and all others are cut off where no blank stands. -/
theorem tokensFrom_eq_append (p : Position) (cs : List Char) :
    ∃ body last, tokensFrom p cs = body ++ [last] ∧ last.lexeme = .endOfInput ∧
      ∀ t ∈ body, t.lexeme.WellFormed := by
  fun_induction tokensFrom p cs with
  | case1 p => exact ⟨[], _, rfl, rfl, nofun⟩
  | case2 p c cs hblank ih => exact ih
  | case3 p c cs hblank scanned text q ih =>
    obtain ⟨body, last, hbody, hlast, hformed⟩ := ih
    refine ⟨⟨scanned.1, Span.between p q, text⟩ :: body, last, ?_, hlast, ?_⟩
    · rw [hbody, List.cons_append]
    · intro t ht
      rcases List.mem_cons.mp ht with rfl | hold
      · exact Lexeme.scan_wellFormed (by simpa using hblank) cs
      · exact hformed t hold

/-- Where a text begins does not matter to what its tokens are. -/
theorem map_lexeme_tokensFrom (p q : Position) (cs : List Char) :
    (tokensFrom p cs).map Token.lexeme = (tokensFrom q cs).map Token.lexeme := by
  fun_induction tokensFrom p cs generalizing q with
  | case1 p => simp [tokensFrom]
  | case2 p c cs hblank ih =>
    rw [tokensFrom.eq_def q, ih (q.next c)]
    simp [hblank]
  | case3 p c cs hblank scanned text r ih =>
    rw [tokensFrom.eq_def q]
    simp [hblank, ih (q.advance text), scanned, text]

/-- The lexemes of a text before its end, comments included. -/
def lexemesOf (cs : List Char) : List Lexeme :=
  ((tokensFrom Position.start cs).map Token.lexeme).takeWhile (· ≠ .endOfInput)

theorem lexemesOf_nil : lexemesOf [] = [] := by
  simp [lexemesOf, tokensFrom]

theorem lexemesOf_blank {c : Char} (hc : isBlank c = true) (cs : List Char) :
    lexemesOf (c :: cs) = lexemesOf cs := by
  rw [lexemesOf, tokensFrom, if_pos hc, map_lexeme_tokensFrom _ Position.start, lexemesOf]

theorem lexemesOf_cons {c : Char} (hc : isBlank c = false) (cs : List Char) :
    lexemesOf (c :: cs) =
      (Lexeme.scan c cs).1 :: lexemesOf (cs.drop (Lexeme.scan c cs).2) := by
  have hend : (Lexeme.scan c cs).1 ≠ .endOfInput := by
    intro h
    have hformed := Lexeme.scan_wellFormed hc cs
    rw [h] at hformed
    exact hformed
  rw [lexemesOf, tokensFrom, if_neg (by simp [hc]), List.map_cons,
    map_lexeme_tokensFrom _ Position.start, List.takeWhile_cons_of_pos (by simpa using hend),
    lexemesOf]

/-- A token that takes the characters `cs` and leaves `rest`. -/
theorem lexemesOf_scan {c : Char} {cs rest : List Char} {l : Lexeme} (hc : isBlank c = false)
    (h : Lexeme.scan c (cs ++ rest) = (l, cs.length)) :
    lexemesOf (c :: (cs ++ rest)) = l :: lexemesOf rest := by
  rw [lexemesOf_cons hc, h, List.drop_left]

theorem lexemesOf_wellFormed (cs : List Char) : ∀ l ∈ lexemesOf cs, l.WellFormed := by
  intro l hl
  obtain ⟨body, last, hbody, hlast, hformed⟩ := tokensFrom_eq_append Position.start cs
  have hmem : l ∈ (body ++ [last]).map Token.lexeme ∧ l ≠ .endOfInput := by
    rw [← hbody]
    exact ⟨(List.takeWhile_sublist _).mem hl,
      by simpa using List.all_eq_true.mp List.all_takeWhile l hl⟩
  obtain ⟨t, ht, rfl⟩ := List.mem_map.mp hmem.1
  rcases List.mem_append.mp ht with hin | hin
  · exact hformed t hin
  · rw [List.mem_singleton.mp hin] at hmem
    exact absurd hlast hmem.2

end TextAdventure
