import Mathlib
import TextAdventure.Play.Console
import TextAdventure.Proofs.Source.Tiling

/-!
Open brackets.

The console counts the brackets that a text leaves open character by character, and does not cut it
into tokens.  The two agree on strings, comments and character literals.  They differ on a
backslash in a word: to the count it hides the character behind it, and to a token it is a
character of the word like any other.  So a word that ends with a backslash of its own can hide the
bracket, string or comment that begins right behind it, and nothing else can.

* `bracketBalance` — how many brackets some tokens open more than they close;
* `Token.Hides` — the count misses the token behind a word;
* `openBrackets_scan` — one token counts for what it is, and leaves the count between tokens;
* `formDepth_fits` — the count is small in a text that is not too long;
* `Console.waits_iff` — the console waits for another line while brackets are open;
* `formDepth_eq_bracketBalance` — it waits exactly while the tokens of its text have brackets open,
  unless one hides another.
-/

namespace TextAdventure

/-! ### Brackets among tokens -/

namespace Lexeme

def opens : Lexeme → Bool
  | .openForm => true
  | .openList => true
  | _ => false

def closes : Lexeme → Bool
  | .closeForm => true
  | .closeList => true
  | _ => false

/-- What a lexeme adds to the number of brackets that are open. -/
def weight (l : Lexeme) : Int := (if l.opens then 1 else 0) - if l.closes then 1 else 0

/-- A bare word, or a name behind a mark. -/
def isWord : Lexeme → Bool
  | .atom _ => true
  | .literal (.int _) => true
  | .literal (.float _) => true
  | .malformed (.integerRange _) => true
  | .reference _ _ => true
  | .marker (.tag _) => true
  | _ => false

/-- A bracket, a string or a comment: what the count of brackets looks at. -/
def isCounted : Lexeme → Bool
  | .openForm => true
  | .closeForm => true
  | .openList => true
  | .closeList => true
  | .literal (.string _) => true
  | .malformed .unterminatedString => true
  | .comment _ => true
  | _ => false

end Lexeme

/-- The opening brackets among some tokens less the closing ones. -/
def bracketBalance (ts : List Token) : Int :=
  (ts.countP (·.lexeme.opens) : Int) - ts.countP (·.lexeme.closes)

theorem bracketBalance_cons (t : Token) (ts : List Token) :
    bracketBalance (t :: ts) = t.lexeme.weight + bracketBalance ts := by
  rw [bracketBalance, bracketBalance, Lexeme.weight, List.countP_cons, List.countP_cons]
  split <;> split <;> push_cast <;> omega

/-! ### Backslashes -/

/-- How many backslashes a text ends with. -/
def finalBackslashes (cs : List Char) : Nat := (cs.reverse.takeWhile (· = '\\')).length

theorem finalBackslashes_le (cs : List Char) : finalBackslashes cs ≤ cs.length := by
  have hle := (List.takeWhile_sublist (l := cs.reverse) (· = '\\')).length_le
  rwa [List.length_reverse] at hle

/-- A character in front of a text counts only if the text is nothing but backslashes. -/
theorem finalBackslashes_cons (c : Char) (cs : List Char) :
    finalBackslashes (c :: cs) =
      finalBackslashes cs + if c = '\\' ∧ finalBackslashes cs = cs.length then 1 else 0 := by
  rw [finalBackslashes, finalBackslashes, List.reverse_cons, List.takeWhile_append,
    List.length_reverse]
  by_cases hall : (cs.reverse.takeWhile (· = '\\')).length = cs.length
  · rw [if_pos hall, List.length_append, List.length_reverse, hall]
    by_cases hc : c = '\\'
    · simp [hc]
    · simp [hc]
  · rw [if_neg hall, if_neg fun h => hall h.2, Nat.add_zero]

/-- A word with an odd number of backslashes at its end, and right behind it a token that the count
looks at. -/
def Token.Hides (t u : Token) : Prop :=
  t.lexeme.isWord = true ∧ finalBackslashes t.text % 2 = 1 ∧ t.span.stop = u.span.start ∧
    u.lexeme.isCounted = true

instance (t u : Token) : Decidable (t.Hides u) :=
  inferInstanceAs (Decidable (_ ∧ _ ∧ _ ∧ _))

/-! ### The count, token by token -/

/-- A character that the count passes over. -/
def passesOver (c : Char) : Bool := !(['\\', '"', ';', '<', '(', '>', ')'].contains c)

theorem passesOver_eq_false_iff (c : Char) :
    passesOver c = false ↔ c ∈ ['\\', '"', ';', '<', '(', '>', ')'] := by
  rw [passesOver, Bool.not_eq_false', List.contains_iff_mem]

theorem openBrackets_pass {c : Char} (hc : passesOver c = true) (cs : List Char) :
    openBrackets .code (c :: cs) = openBrackets .code cs := by
  simp only [passesOver, List.contains_cons, List.contains_nil, Bool.or_false, Bool.not_eq_true',
    Bool.or_eq_false_iff, beq_eq_false_iff_ne] at hc
  obtain ⟨h1, h2, h3, h4, h5, h6, h7⟩ := hc
  rw [openBrackets.eq_def]
  split <;> simp_all

theorem openBrackets_comment (cs : List Char) :
    openBrackets .comment cs = openBrackets .code (cs.drop (cs.takeWhile (· ≠ '\n')).length) := by
  induction cs with
  | nil => rfl
  | cons c cs ih =>
    rw [openBrackets]
    by_cases hc : c = '\n'
    · -- the newline ends the comment and is passed over as well
      rw [if_pos hc, List.takeWhile_cons_of_neg (by simp [hc]), hc]
      exact (openBrackets_pass (by decide) cs).symm
    · rw [if_neg hc, ih, List.takeWhile_cons_of_pos (by simp [hc])]
      rfl

theorem openBrackets_string_of_some {cs text rest : List Char}
    (h : Text.readQuoted cs = some (text, rest)) :
    openBrackets .string cs = openBrackets .code rest := by
  fun_induction Text.readQuoted cs generalizing text rest with
  | case1 => cases h
  | case2 cs =>
    cases h
    rfl
  | case3 c cs ih =>
    obtain ⟨⟨t, r⟩, hr, heq⟩ := Option.map_eq_some_iff.1 h
    cases heq
    exact ih hr
  | case4 => simp at h
  | case5 c cs hquote hslash hc ih =>
    obtain ⟨⟨t, r⟩, hr, heq⟩ := Option.map_eq_some_iff.1 h
    cases heq
    rw [← ih hr, openBrackets.eq_def]
    split <;> simp_all

theorem openBrackets_string_of_none {cs : List Char} (h : Text.readQuoted cs = none) :
    openBrackets .string cs = 0 := by
  fun_induction Text.readQuoted cs with
  | case1 => rfl
  | case2 cs => cases h
  | case3 c cs ih => exact ih (Option.map_eq_none_iff.1 h)
  | case4 cs hslash hquote =>
    -- a backslash with nothing behind it
    cases cs with
    | nil => rfl
    | cons d ds => exact absurd rfl (hquote d ds rfl)
  | case5 c cs hquote hslash hc ih =>
    rw [openBrackets.eq_def]
    split <;> simp_all

theorem passesOver_of_isWordChar {c : Char} (hc : isWordChar c = true) (hslash : c ≠ '\\') :
    passesOver c = true := by
  simp_all [passesOver, isWordChar]

/-- Over a word the backslashes are taken in pairs with what follows them, and if their number at
the end is odd, the last goes with the character behind the word. -/
theorem openBrackets_word {w : List Char} (hw : ∀ c ∈ w, isWordChar c = true) (rest : List Char) :
    openBrackets .code (w ++ rest) = openBrackets .code (rest.drop (finalBackslashes w % 2)) := by
  induction w using List.twoStepInduction with
  | nil => rfl
  | singleton c =>
    by_cases hc : c = '\\'
    · subst hc
      cases rest <;> rfl
    · rw [List.singleton_append,
        openBrackets_pass (passesOver_of_isWordChar (hw c List.mem_cons_self) hc)]
      simp [finalBackslashes, hc]
  | cons_cons c d w ih ih' =>
    by_cases hc : c = '\\'
    · subst hc
      have hle := finalBackslashes_le w
      have hparity : finalBackslashes ('\\' :: d :: w) % 2 = finalBackslashes w % 2 := by
        rw [finalBackslashes_cons, finalBackslashes_cons, List.length_cons]
        by_cases hd : d = '\\' ∧ finalBackslashes w = w.length
        · rw [if_pos hd, if_pos ⟨rfl, by omega⟩]
          omega
        · rw [if_neg hd, if_neg (by omega), Nat.add_zero]
      rw [hparity, ← ih fun e he => hw e (by simp [he])]
      rfl
    · rw [List.cons_append,
        openBrackets_pass (passesOver_of_isWordChar (hw c List.mem_cons_self) hc),
        ih' d fun e he => hw e (List.mem_cons_of_mem _ he), finalBackslashes_cons c,
        if_neg fun h => hc h.1, Nat.add_zero]

namespace Lexeme

/-- How many characters behind a token the count takes along with it. -/
def overhang (l : Lexeme) (text : List Char) : Nat :=
  if l.isWord then finalBackslashes text % 2 else 0

theorem isWord_ofWord (w : List Char) : (ofWord w).isWord = true ∧ (ofWord w).weight = 0 := by
  rw [ofWord]
  dsimp only
  split
  · exact ⟨rfl, rfl⟩
  · split
    · split <;> exact ⟨rfl, rfl⟩
    · split <;> exact ⟨rfl, rfl⟩
    · exact ⟨rfl, rfl⟩

end Lexeme

theorem overhang_of_not_isWord {l : Lexeme} (h : l.isWord = false) (text : List Char) :
    l.overhang text = 0 := by
  rw [Lexeme.overhang, h]
  rfl

theorem overhang_of_isWord {l : Lexeme} (h : l.isWord = true) (text : List Char) :
    l.overhang text = finalBackslashes text % 2 := by
  rw [Lexeme.overhang, if_pos h]

/-- A name behind a mark is counted as a word. -/
theorem openBrackets_named {c : Char} (hpass : passesOver c = true) (hc : c ≠ '\\') (mark : Char)
    {make : String → Lexeme} (hword : ∀ name, (make name).isWord = true)
    (hweight : ∀ name, (make name).weight = 0) {body rest : List Char} {l : Lexeme}
    (h : Lexeme.named mark make (body ++ rest) = (l, body.length)) :
    openBrackets .code (c :: (body ++ rest)) =
      l.weight + openBrackets .code (rest.drop (l.overhang (c :: body))) := by
  rw [openBrackets_pass hpass]
  rw [Lexeme.named] at h
  split at h
  · obtain ⟨rfl, hlength⟩ := Prod.mk.inj h
    rw [List.eq_nil_of_length_eq_zero hlength.symm, overhang_of_not_isWord rfl]
    exact (Int.zero_add _).symm
  · obtain ⟨rfl, hlength⟩ := Prod.mk.inj h
    obtain ⟨hbody, -⟩ := run_of_length_takeWhile hlength
    rw [openBrackets_word hbody, hweight, Int.zero_add, overhang_of_isWord (hword _),
      finalBackslashes_cons, if_neg fun h => hc h.1, Nat.add_zero]

/-- A comment is passed over. -/
theorem openBrackets_semicolon {body rest : List Char} {l : Lexeme}
    (h : Lexeme.scan ';' (body ++ rest) = (l, body.length)) :
    openBrackets .code (';' :: (body ++ rest)) =
      l.weight + openBrackets .code (rest.drop (l.overhang (';' :: body))) := by
  obtain ⟨rfl, hlength⟩ := Prod.mk.inj h
  rw [overhang_of_not_isWord rfl]
  show openBrackets .comment (body ++ rest) = _
  rw [openBrackets_comment, hlength, List.drop_left]
  exact (Int.zero_add _).symm

/-- So is a string, up to its end or the end of the text. -/
theorem openBrackets_quote {body rest : List Char} {l : Lexeme}
    (h : Lexeme.scan '"' (body ++ rest) = (l, body.length)) :
    openBrackets .code ('"' :: (body ++ rest)) =
      l.weight + openBrackets .code (rest.drop (l.overhang ('"' :: body))) := by
  show openBrackets .string (body ++ rest) = _
  cases hread : Text.readQuoted (body ++ rest) with
  | none =>
    rw [Lexeme.scan_quote_of_none hread] at h
    obtain ⟨rfl, hlength⟩ := Prod.mk.inj h
    have hrest : rest = [] := by
      refine List.eq_nil_of_length_eq_zero ?_
      rw [List.length_append] at hlength
      omega
    rw [openBrackets_string_of_none hread, hrest, List.drop_nil]
    rfl
  | some read =>
    obtain ⟨text, after⟩ := read
    rw [Lexeme.scan_quote_of_some hread] at h
    obtain ⟨rfl, hlength⟩ := Prod.mk.inj h
    obtain ⟨taken, hsplit, -⟩ := Text.readQuoted_split hread
    have hlt := Text.readQuoted_length_lt hread
    have hafter : rest = after := by
      have hsum := congrArg List.length hsplit
      rw [List.length_append, List.length_append] at hsum
      refine (List.append_inj hsplit ?_).2
      rw [List.length_append] at hlength hlt
      omega
    rw [openBrackets_string_of_some hread, overhang_of_not_isWord rfl, hafter]
    exact (Int.zero_add _).symm

/-- So is a character literal, with the character that it is. -/
theorem openBrackets_backslash {body rest : List Char} {l : Lexeme}
    (h : Lexeme.scan '\\' (body ++ rest) = (l, body.length)) :
    openBrackets .code ('\\' :: (body ++ rest)) =
      l.weight + openBrackets .code (rest.drop (l.overhang ('\\' :: body))) := by
  cases hsplit : body ++ rest with
  | nil =>
    obtain ⟨rfl, rfl⟩ := List.append_eq_nil_iff.mp hsplit
    obtain ⟨rfl, -⟩ := Prod.mk.inj h
    rfl
  | cons d ds =>
    rw [hsplit] at h
    obtain ⟨rfl, hlength⟩ := Prod.mk.inj h
    obtain ⟨e, rfl⟩ := List.length_eq_one_iff.mp hlength.symm
    cases hsplit
    exact (Int.zero_add _).symm

/-- A token is counted for what it is, and the count goes on behind it, or, behind a word that ends
with an odd number of backslashes, one character later. -/
theorem openBrackets_scan {c : Char} {body rest : List Char} {l : Lexeme} (hc : isBlank c = false)
    (h : Lexeme.scan c (body ++ rest) = (l, body.length)) :
    openBrackets .code (c :: (body ++ rest)) =
      l.weight + openBrackets .code (rest.drop (l.overhang (c :: body))) := by
  have halone : ∀ {l' : Lexeme}, l'.isWord = false → (l', 0) = (l, body.length) →
      openBrackets .code (c :: rest) = l'.weight + openBrackets .code rest →
      openBrackets .code (c :: (body ++ rest)) =
        l.weight + openBrackets .code (rest.drop (l.overhang (c :: body))) := by
    intro l' hword h hcount
    obtain ⟨rfl, hlength⟩ := Prod.mk.inj h
    rw [overhang_of_not_isWord hword, List.eq_nil_of_length_eq_zero hlength.symm]
    exact hcount
  have hpass : ∀ {l' : Lexeme}, l'.weight = 0 → passesOver c = true →
      openBrackets .code (c :: rest) = l'.weight + openBrackets .code rest := by
    intro l' hweight hc
    rw [openBrackets_pass hc, hweight, Int.zero_add]
  unfold Lexeme.scan at h
  split at h
  case h_1 => exact halone rfl h (Int.add_comm _ _)
  case h_2 => exact halone rfl h (Int.add_comm _ _)
  case h_3 => exact halone rfl h (Int.add_comm _ _)
  case h_4 => exact halone rfl h (Int.add_comm _ _)
  case h_9 => exact openBrackets_semicolon h
  case h_10 => exact openBrackets_quote h
  case h_11 => exact openBrackets_backslash h
  case h_12 => exact openBrackets_named (by decide) (by decide) '#' (fun _ => rfl) (fun _ => rfl) h
  case h_13 => exact openBrackets_named (by decide) (by decide) '.' (fun _ => rfl) (fun _ => rfl) h
  case h_14 => exact openBrackets_named (by decide) (by decide) ',' (fun _ => rfl) (fun _ => rfl) h
  case h_19 =>
    obtain ⟨rfl, hlength⟩ := Prod.mk.inj h
    obtain ⟨hbody, -⟩ := run_of_length_takeWhile hlength
    have hfirst : isWordChar c = true := by simp_all [isWordChar]
    obtain ⟨hword, hweight⟩ := Lexeme.isWord_ofWord (c :: (body ++ rest).takeWhile isWordChar)
    rw [← List.cons_append, openBrackets_word (List.forall_mem_cons.mpr ⟨hfirst, hbody⟩), hweight,
      overhang_of_isWord hword, Int.zero_add]
  all_goals exact halone rfl h (hpass rfl (by decide))

/-- Behind a word stands no character that could belong to it. -/
theorem stops_of_isWord {c : Char} {body rest : List Char} {l : Lexeme}
    (h : Lexeme.scan c (body ++ rest) = (l, body.length)) (hword : l.isWord = true) :
    ∀ d ∈ rest.head?, isWordChar d = false := by
  have hother : ∀ {l' : Lexeme} {n : Nat}, (l', n) = (l, body.length) → l'.isWord ≠ false := by
    intro l' n h hl'
    rw [(Prod.mk.inj h).1, hword] at hl'
    cases hl'
  have hnamed : ∀ {mark : Char} {make : String → Lexeme},
      Lexeme.named mark make (body ++ rest) = (l, body.length) →
      ∀ d ∈ rest.head?, isWordChar d = false := by
    intro mark make h
    rw [Lexeme.named] at h
    split at h
    · exact absurd rfl (hother h)
    · exact (run_of_length_takeWhile (Prod.mk.inj h).2).2
  unfold Lexeme.scan at h
  split at h
  case h_10 => split at h <;> exact absurd rfl (hother h)
  case h_11 => split at h <;> exact absurd rfl (hother h)
  case h_12 => exact hnamed h
  case h_13 => exact hnamed h
  case h_14 => exact hnamed h
  case h_19 => exact (run_of_length_takeWhile (Prod.mk.inj h).2).2
  all_goals exact absurd rfl (hother h)

/-- Where the count does not pass over a character, and it is no backslash, a token that is counted
begins. -/
theorem isCounted_of_not_passesOver {d : Char} (h : passesOver d = false) (hslash : d ≠ '\\')
    (ds : List Char) : (Lexeme.scan d ds).1.isCounted = true := by
  have hmem : d = '"' ∨ d = ';' ∨ d = '<' ∨ d = '(' ∨ d = '>' ∨ d = ')' := by
    simpa [hslash] using (passesOver_eq_false_iff d).mp h
  rcases hmem with rfl | rfl | rfl | rfl | rfl | rfl
  · rcases hread : Text.readQuoted ds with _ | ⟨text, rest⟩
    · rw [Lexeme.scan_quote_of_none hread]
      rfl
    · rw [Lexeme.scan_quote_of_some hread]
      rfl
  all_goals rfl

theorem passesOver_of_isBlank {c : Char} (hc : isBlank c = true) : passesOver c = true := by
  have hnone : ['\\', '"', ';', '<', '(', '>', ')'].all (fun c => !isBlank c) = true := by decide
  by_contra h
  have hmem := (passesOver_eq_false_iff c).mp (by simpa using h)
  have hblank := List.all_eq_true.mp hnone c hmem
  rw [hc] at hblank
  cases hblank

/-- The count of a text is the balance of its tokens, as long as no token hides the next. -/
theorem openBrackets_tokensFrom (p : Position) (cs : List Char)
    (h : (tokensFrom p cs).IsChain fun t u => ¬ t.Hides u) :
    openBrackets .code cs = bracketBalance (tokensFrom p cs) := by
  induction p, cs using tokens_induction with
  | nil p =>
    rw [tokensFrom_nil]
    rfl
  | blank p c cs hc ih =>
    rw [tokensFrom_blank hc] at h ⊢
    rw [openBrackets_pass (passesOver_of_isBlank hc), ih h]
  | token p c body rest l hc hscan ih =>
    rw [tokensFrom_scan hc hscan, List.isChain_cons] at h
    obtain ⟨hnext, hchain⟩ := h
    rw [tokensFrom_scan hc hscan, bracketBalance_cons, openBrackets_scan hc hscan, ← ih hchain]
    congr 1
    by_cases hhangs : l.isWord = true ∧ finalBackslashes (c :: body) % 2 = 1
    · obtain ⟨hword, hodd⟩ := hhangs
      rw [overhang_of_isWord hword, hodd]
      obtain _ | ⟨d, ds⟩ := rest
      · rfl
      by_cases hpass : passesOver d = true
      · exact (openBrackets_pass hpass ds).symm
      -- otherwise the word hides the token that begins with `d`
      have hstop := stops_of_isWord hscan hword d rfl
      have hd : isBlank d = false := by
        by_contra hblank
        exact hpass (passesOver_of_isBlank (by simpa using hblank))
      have hslash : d ≠ '\\' := by
        rintro rfl
        cases hstop
      have hcounted := isCounted_of_not_passesOver (by simpa using hpass) hslash ds
      rw [tokensFrom, if_neg (by simp [hd])] at hnext
      exact absurd ⟨hword, hodd, rfl, hcounted⟩ (hnext _ rfl)
    · have hnone : l.overhang (c :: body) = 0 := by
        rw [Lexeme.overhang]
        split
        · rename_i hword
          have hodd : finalBackslashes (c :: body) % 2 ≠ 1 := fun hodd => hhangs ⟨hword, hodd⟩
          omega
        · rfl
      rw [hnone]
      rfl

/-! ### How far the count goes -/

/-- A text opens or closes at most one bracket for each of its characters. -/
theorem natAbs_openBrackets_le (mode : ScanMode) (cs : List Char) :
    (openBrackets mode cs).natAbs ≤ cs.length := by
  fun_induction openBrackets mode cs
  all_goals simp only [List.length_cons, List.length_nil]
  all_goals omega

/-- In a text of fewer than `2 ^ 31` characters the count is a number of 32 bits, and it has been
one all the way. -/
theorem formDepth_fits {input : String} (hsize : input.length < 2 ^ 31) {front : List Char}
    (hfront : front <+: input.toList) :
    -2 ^ 31 < formDepth (String.ofList front) ∧ formDepth (String.ofList front) < 2 ^ 31 := by
  have hle := natAbs_openBrackets_le .code front
  have hlength := hfront.length_le
  rw [String.length_toList] at hlength
  rw [formDepth, String.toList_ofList]
  omega

/-! ### The console -/

namespace Console

/-- The text that a console has when a line is entered: the line behind those that wait for it. -/
def textWith (c : Console) (line : String) : String :=
  match c.pending with
  | none => line
  | some before => before ++ "\n" ++ line

theorem accept_line (c : Console) (fuel : Nat) (line : String) :
    c.accept fuel (some (.line line)) =
      if formDepth (c.textWith line) ≤ 0 then c.complete fuel (c.textWith line)
      else ({ c with pending := some (c.textWith line) }, .waiting) := rfl

/-- After a line the console waits for another one exactly when the count is positive. -/
theorem waits_iff (c : Console) (fuel : Nat) (line : String) :
    (c.accept fuel (some (.line line))).2 = .waiting ↔ 0 < formDepth (c.textWith line) := by
  rw [accept_line]
  split
  · rename_i hclosed
    constructor
    · intro h
      rw [complete] at h
      split at h <;> cases h
    · intro h
      exact absurd h (Int.not_lt.mpr hclosed)
  · rename_i hopen
    exact ⟨fun _ => Int.not_le.mp hopen, fun _ => rfl⟩

end Console

/-- Where no word of a text hides the token behind it, the count of open brackets is the number of
opening brackets among the tokens less that of closing ones, and the console waits for another line
exactly while there are more opening than closing ones.  In a text of fewer than `2 ^ 31` characters
the count fits into 32 bits, and so it does behind every character on the way. -/
theorem formDepth_eq_bracketBalance (input : String)
    (h : (tokenize input).IsChain fun t u => ¬ t.Hides u) :
    formDepth input = bracketBalance (tokenize input) ∧
    (∀ (c : Console) (fuel : Nat) (line : String), c.textWith line = input →
      ((c.accept fuel (some (.line line))).2 = .waiting ↔ 0 < bracketBalance (tokenize input))) ∧
    (input.length < 2 ^ 31 → ∀ front, front <+: input.toList →
      -2 ^ 31 < formDepth (String.ofList front) ∧ formDepth (String.ofList front) < 2 ^ 31) := by
  have hdepth : formDepth input = bracketBalance (tokenize input) :=
    openBrackets_tokensFrom Position.start input.toList h
  refine ⟨hdepth, fun c fuel line htext => ?_, fun hsize front => formDepth_fits hsize⟩
  rw [c.waits_iff, htext, hdepth]

/-- A form waits for its end, with brackets in a list, a string and a literal, a word that ends with
two backslashes before a bracket, and one that ends with one before a blank. -/
theorem formDepth_eq_bracketBalance_open :
    ((tokenize "<A b\\\\(\"(\" c\\ \\<)").IsChain fun t u => ¬ t.Hides u) ∧
    formDepth "<A b\\\\(\"(\" c\\ \\<)" = 1 ∧
    ∀ c : Console, c.pending = none →
      (c.accept 9 (some (.line "<A b\\\\(\"(\" c\\ \\<)"))).2 = .waiting := by
  have hchain : (tokenize "<A b\\\\(\"(\" c\\ \\<)").IsChain fun t u => ¬ t.Hides u := by
    cbv
    decide
  have hbalance : bracketBalance (tokenize "<A b\\\\(\"(\" c\\ \\<)") = 1 := by cbv
  obtain ⟨hdepth, hwaits, -⟩ := formDepth_eq_bracketBalance _ hchain
  rw [hbalance] at hdepth hwaits
  refine ⟨hchain, hdepth, fun c hc => (hwaits c 9 _ ?_).mpr Int.one_pos⟩
  rw [Console.textWith, hc]

/-- A word that ends with a backslash hides the bracket behind it from the count. -/
theorem formDepth_hidden :
    formDepth "<a\\>" = 1 ∧ bracketBalance (tokenize "<a\\>") = 0 := by
  constructor
  · decide
  · cbv

end TextAdventure
