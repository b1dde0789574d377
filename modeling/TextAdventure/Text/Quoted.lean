/-!
String literals.

In a source text a string stands between double quotes, and a backslash makes the character
after it stand for itself.  Writing therefore puts a backslash before every double quote and
every backslash and nowhere else.

Main statements:
* `readQuoted_append` — what was written is read back, and reading stops right behind it;
* `readQuoted_length_lt` — a closed literal leaves less text than it was given.
-/

namespace TextAdventure.Text

/-- The inside of a literal: a backslash before each double quote and each backslash. -/
def escape : List Char → List Char
  | [] => []
  | c :: cs => if c = '"' ∨ c = '\\' then '\\' :: c :: escape cs else c :: escape cs

/-- A string as a literal between double quotes. -/
def quoted (s : String) : String := String.ofList ('"' :: escape s.toList ++ ['"'])

/-- Reads a literal whose opening quote is behind us: its characters and the text after the
closing quote, or nothing when the text ends first. -/
def readQuoted : List Char → Option (List Char × List Char)
  | [] => none
  | '"' :: cs => some ([], cs)
  | '\\' :: c :: cs => (readQuoted cs).map fun (text, rest) => (c :: text, rest)
  | c :: cs => if c = '\\' then none else (readQuoted cs).map fun (text, rest) => (c :: text, rest)

/-! ### Laws -/

theorem readQuoted_append (s rest : List Char) :
    readQuoted (escape s ++ '"' :: rest) = some (s, rest) := by
  induction s with
  | nil => simp [escape, readQuoted]
  | cons c cs ih =>
    by_cases hq : c = '"'
    · subst hq; simp [escape, readQuoted, ih]
    · by_cases hb : c = '\\'
      · subst hb; simp [escape, readQuoted, ih]
      · simp only [escape, hq, hb, or_self, ↓reduceIte, List.cons_append]
        rw [readQuoted.eq_def]
        split
        · simp_all
        · simp_all
        · simp_all
        · simp_all

theorem readQuoted_length_lt {cs text rest : List Char}
    (h : readQuoted cs = some (text, rest)) : rest.length < cs.length := by
  fun_induction readQuoted cs generalizing text rest with
  | case1 => simp at h
  | case2 cs => simp_all
  | case3 c cs ih =>
    obtain ⟨⟨t, r⟩, hr, heq⟩ := Option.map_eq_some_iff.1 h
    obtain ⟨rfl, rfl⟩ := Prod.mk.injEq .. ▸ heq
    have := ih hr
    simp only [List.length_cons]
    omega
  | case4 => simp at h
  | case5 c cs _ _ _ ih =>
    obtain ⟨⟨t, r⟩, hr, heq⟩ := Option.map_eq_some_iff.1 h
    obtain ⟨rfl, rfl⟩ := Prod.mk.injEq .. ▸ heq
    have := ih hr
    simp only [List.length_cons]
    omega

end TextAdventure.Text
