import Mathlib
import TextAdventure.Proofs.Source.RoundTrip
import TextAdventure.Proofs.Source.Tiling

/-!
Numerals.

A bare word takes all word characters from its first one on.  If it is a sign and digits, with the
sign left out or not, it denotes an integer, whose value is the sum of its digits, each times a
power of ten.  The word is read as that integer when 64 bits hold it and is refused otherwise, for
any number of digits.  With a point between two runs of digits the word is a float, and any other
word is an atom with its own text.

* `denoted` — the integer that a sign and digits denote;
* `int64OfParts_spec` — the 64-bit integer with a sign and a magnitude, or why there is none;
* `Lexeme.ofWord_digits`, `Lexeme.ofWord_decimal` — what words of digits are read as;
* `exists_of_mem_tokensFrom` — where a bare word stands, and that nothing behind it belongs to it;
* `tokenize_bareWord` — what the bare words of a text are read as.
-/

namespace TextAdventure

/-! ### What digits denote -/

/-- An optional sign. -/
def IsSign (sign : List Char) : Prop := sign = [] ∨ sign = ['-'] ∨ sign = ['+']

def digitValue (c : Char) : Nat := c.toNat - '0'.toNat

/-- The integer that a sign and digits denote: the last digit counts ones, the one before it tens,
and so on, and a minus sign negates the sum. -/
def denoted (sign digits : List Char) : Int :=
  let magnitude : Nat := Nat.ofDigits 10 (digits.reverse.map digitValue)
  if sign = ['-'] then -(magnitude : Int) else magnitude

/-- Taking digits in from the left counts each of them for its place. -/
theorem digitsValue_eq_ofDigits (digits : List Char) :
    digitsValue digits = Nat.ofDigits 10 (digits.reverse.map digitValue) := by
  induction digits using List.reverseRecOn with
  | nil => rfl
  | append_singleton digits c ih =>
    have hlast : digitsValue (digits ++ [c]) = digitsValue digits * 10 + digitValue c := by
      rw [digitsValue, List.foldl_append]
      rfl
    rw [hlast, ih, List.reverse_concat, List.map_cons, Nat.ofDigits_cons]
    omega

/-! ### Integers of 64 bits -/

/-- The integer with a sign and a magnitude is found when 64 bits hold it, and otherwise the end of
the range that it exceeds. -/
theorem int64OfParts_spec (negative : Bool) (magnitude : Nat) {v : Int}
    (hv : v = if negative then -(magnitude : Int) else magnitude) :
    (-2 ^ 63 ≤ v ∧ v < 2 ^ 63 →
      ∃ n : Int64, int64OfParts negative magnitude = .ok n ∧ n.toInt = v) ∧
    (2 ^ 63 ≤ v → int64OfParts negative magnitude = .error .tooLarge) ∧
    (v < -2 ^ 63 → int64OfParts negative magnitude = .error .tooSmall) := by
  have hbound : (1 <<< 63 : Nat) = 2 ^ 63 := rfl
  rw [int64OfParts, hbound]
  cases negative with
  | true =>
    obtain rfl : v = -(magnitude : Int) := hv
    refine ⟨fun hrange => ?_, fun hlarge => ?_, fun hsmall => ?_⟩
    · obtain ⟨hlow, hhigh⟩ := hrange
      rw [if_pos rfl, if_pos (by omega)]
      exact ⟨_, rfl, Int64.toInt_ofInt_of_le hlow hhigh⟩
    · omega
    · rw [if_pos rfl, if_neg (by omega)]
  | false =>
    obtain rfl : v = (magnitude : Int) := hv
    refine ⟨fun hrange => ?_, fun hlarge => ?_, fun hsmall => ?_⟩
    · obtain ⟨hlow, hhigh⟩ := hrange
      rw [if_neg Bool.false_ne_true, if_pos (by omega)]
      exact ⟨_, rfl, Int64.toInt_ofInt_of_le hlow hhigh⟩
    · rw [if_neg Bool.false_ne_true, if_neg (by omega)]
    · omega

/-! ### Words of digits -/

section

variable {sign digits whole fraction : List Char}

/-- The sign is split off, and nothing else, for a digit is no sign. -/
theorem splitSign_append (hsign : IsSign sign) {rest : List Char}
    (hrest : ∀ c ∈ rest.head?, isDigit c = true) :
    splitSign (sign ++ rest) = (decide (sign = ['-']), rest) := by
  rcases hsign with rfl | rfl | rfl
  · exact splitSign_of_digit hrest
  · rfl
  · rfl

theorem IsDigits.head? (h : IsDigits digits) (rest : List Char) :
    ∀ c ∈ (digits ++ rest).head?, isDigit c = true := by
  obtain ⟨d, ds, rfl⟩ := List.exists_cons_of_ne_nil h.1
  intro c hc
  cases hc
  exact h.2 d List.mem_cons_self

/-- A run of digits goes up to what stands behind it, if that is no digit. -/
theorem IsDigits.span (h : IsDigits digits) {rest : List Char}
    (hrest : ∀ c ∈ rest.head?, isDigit c = false) :
    (digits ++ rest).takeWhile isDigit = digits ∧ (digits ++ rest).dropWhile isDigit = rest := by
  have hstop : rest.takeWhile isDigit = [] ∧ rest.dropWhile isDigit = rest := by
    cases rest with
    | nil => exact ⟨rfl, rfl⟩
    | cons c cs =>
      have hc : ¬ isDigit c = true := by simp [hrest c rfl]
      exact ⟨List.takeWhile_cons_of_neg hc, List.dropWhile_cons_of_neg hc⟩
  rw [List.takeWhile_append_of_pos h.2, List.dropWhile_append_of_pos h.2, hstop.1, hstop.2,
    List.append_nil]
  exact ⟨rfl, rfl⟩

/-- A word of digits is read as the integer that it denotes, if there is one of 64 bits. -/
theorem Lexeme.ofWord_digits (hsign : IsSign sign) (hdigits : IsDigits digits) :
    (-2 ^ 63 ≤ denoted sign digits ∧ denoted sign digits < 2 ^ 63 →
      ∃ n : Int64, Lexeme.ofWord (sign ++ digits) = .literal (.int n) ∧
        n.toInt = denoted sign digits) ∧
    (2 ^ 63 ≤ denoted sign digits →
      Lexeme.ofWord (sign ++ digits) = .malformed (.integerRange .tooLarge)) ∧
    (denoted sign digits < -2 ^ 63 →
      Lexeme.ofWord (sign ++ digits) = .malformed (.integerRange .tooSmall)) := by
  have hhead : ∀ c ∈ digits.head?, isDigit c = true := by
    simpa using hdigits.head? []
  have hsplit := splitSign_append hsign hhead
  obtain ⟨htake, hdrop⟩ : digits.takeWhile isDigit = digits ∧ digits.dropWhile isDigit = [] := by
    simpa using @IsDigits.span digits hdigits [] (by simp)
  have hne : ¬ digits.isEmpty = true := by simpa using hdigits.1
  have hok : ∀ {n}, int64OfParts (decide (sign = ['-'])) (digitsValue digits) = .ok n →
      Lexeme.ofWord (sign ++ digits) = .literal (.int n) := by
    intro n hn
    rw [Lexeme.ofWord, readInt, hsplit]
    dsimp only
    rw [htake, hdrop, if_neg hne, hn]
  have herror : ∀ {e}, int64OfParts (decide (sign = ['-'])) (digitsValue digits) = .error e →
      Lexeme.ofWord (sign ++ digits) = .malformed (.integerRange e) := by
    intro e he
    rw [Lexeme.ofWord, readInt, hsplit]
    dsimp only
    rw [htake, hdrop, if_neg hne, he]
  have hvalue : denoted sign digits = if decide (sign = ['-']) = true
      then -(digitsValue digits : Int) else digitsValue digits := by
    simp only [denoted, digitsValue_eq_ofDigits, decide_eq_true_eq]
  obtain ⟨hfits, hlarge, hsmall⟩ := int64OfParts_spec _ _ hvalue
  refine ⟨fun hrange => ?_, fun hover => herror (hlarge hover),
    fun hunder => herror (hsmall hunder)⟩
  obtain ⟨n, hn, hvalue⟩ := hfits hrange
  exact ⟨n, hok hn, hvalue⟩

/-- A word of two runs of digits around a point is read as the nearest float. -/
theorem Lexeme.ofWord_decimal (hsign : IsSign sign) (hwhole : IsDigits whole)
    (hfraction : IsDigits fraction) :
    Lexeme.ofWord (sign ++ (whole ++ '.' :: fraction)) =
      .literal (.float (Binary64.ofDecimal (decide (sign = ['-'])) whole fraction)) := by
  have hpoint : ∀ c ∈ ('.' :: fraction).head?, isDigit c = false := by
    intro c hc
    cases hc
    rfl
  obtain ⟨htake, hdrop⟩ := hwhole.span hpoint
  rw [Lexeme.ofWord, splitSign_append hsign (hwhole.head? _)]
  dsimp only
  rw [htake, hdrop, if_neg (by simpa using hwhole.1)]
  exact if_pos (by simpa [IsDigits] using hfraction)

end

/-! ### Bare words -/

/-- A text that begins as bare words do: with a word character that is no marker. -/
def BeginsWord (text : List Char) : Prop := ∃ c ∈ text.head?, startsWord c = true

/-- Where a bare word stands among the tokens of a text: it holds word characters only, none stands
behind it, and what it is depends on its characters. -/
theorem exists_of_mem_tokensFrom {p : Position} {cs : List Char} {t : Token}
    (ht : t ∈ tokensFrom p cs) (hword : BeginsWord t.text) :
    t.lexeme = Lexeme.ofWord t.text ∧ (∀ c ∈ t.text, isWordChar c = true) ∧
      ∃ before after, cs = before ++ (t.text ++ after) ∧ EndsWord after ∧
        t.span = Span.between (p.advance before) (p.advance (before ++ t.text)) := by
  induction p, cs using tokens_induction with
  | nil p =>
    rw [tokensFrom_nil, List.mem_singleton] at ht
    obtain ⟨c, hc, -⟩ := hword
    rw [ht] at hc
    cases hc
  | blank p c cs hc ih =>
    rw [tokensFrom_blank hc] at ht
    obtain ⟨hlexeme, hchars, before, after, rfl, hafter, hspan⟩ := ih ht
    exact ⟨hlexeme, hchars, c :: before, after, rfl, hafter, hspan⟩
  | token p c body rest l hc hscan ih =>
    rw [tokensFrom_scan hc hscan] at ht
    rcases List.mem_cons.mp ht with rfl | ht
    · -- the token that begins here is the word
      obtain ⟨d, hd, hstart⟩ := hword
      cases hd
      rw [Lexeme.scan_of_startsWord hstart] at hscan
      obtain ⟨rfl, hlength⟩ := Prod.mk.inj hscan
      obtain ⟨hbody, hrest⟩ := run_of_length_takeWhile hlength
      have hfirst : isWordChar c = true := by
        rw [startsWord, Bool.and_eq_true] at hstart
        exact hstart.1
      refine ⟨?_, List.forall_mem_cons.mpr ⟨hfirst, hbody⟩, [], rest, rfl, hrest, rfl⟩
      rw [takeWhile_isWordChar hbody hrest]
    · obtain ⟨hlexeme, hchars, before, after, rfl, hafter, hspan⟩ := ih ht
      refine ⟨hlexeme, hchars, c :: body ++ before, after, by simp, hafter, ?_⟩
      rw [hspan, ← Position.advance_append, ← Position.advance_append, List.append_assoc]

/-- A bare word goes from its first character, which is no marker, over all word characters behind
it.  If it is an optional sign and digits, it is read as the integer that it denotes when 64 bits
hold that integer, and is refused otherwise.  If it is an optional sign and digits with a point
between two of them, it is read as a float.  Every other word is an atom with its own text. -/
theorem tokenize_bareWord {source : String} {t : Token} (ht : t ∈ tokenize source)
    (hword : BeginsWord t.text) :
    ((∀ c ∈ t.text, isWordChar c = true) ∧
      ∃ before after, source.toList = before ++ (t.text ++ after) ∧ EndsWord after ∧
        t.span = Span.between (Position.start.advance before)
          (Position.start.advance (before ++ t.text))) ∧
    (∀ sign digits, IsSign sign → IsDigits digits → t.text = sign ++ digits →
      (-2 ^ 63 ≤ denoted sign digits ∧ denoted sign digits < 2 ^ 63 →
        ∃ n : Int64, t.lexeme = .literal (.int n) ∧ n.toInt = denoted sign digits) ∧
      (2 ^ 63 ≤ denoted sign digits → t.lexeme = .malformed (.integerRange .tooLarge)) ∧
      (denoted sign digits < -2 ^ 63 → t.lexeme = .malformed (.integerRange .tooSmall))) ∧
    (∀ sign whole fraction, IsSign sign → IsDigits whole → IsDigits fraction →
      t.text = sign ++ (whole ++ '.' :: fraction) →
      t.lexeme =
        .literal (.float (Binary64.ofDecimal (decide (sign = ['-'])) whole fraction))) ∧
    (¬ NumberShaped t.text → t.lexeme = .atom (String.ofList t.text)) := by
  obtain ⟨hlexeme, hchars, hstands⟩ := exists_of_mem_tokensFrom ht hword
  refine ⟨⟨hchars, hstands⟩, ?_, ?_, fun hother => ?_⟩
  · intro sign digits hsign hdigits htext
    rw [hlexeme, htext]
    exact Lexeme.ofWord_digits hsign hdigits
  · intro sign whole fraction hsign hwhole hfraction htext
    rw [hlexeme, htext]
    exact Lexeme.ofWord_decimal hsign hwhole hfraction
  · rw [hlexeme]
    exact Lexeme.ofWord_of_not_numberShaped hother

/-- One below the least integer of 64 bits, with zeros in front, is refused, and a number with a
second point is an atom. -/
theorem tokenize_bareWord_below :
    (∃ t ∈ tokenize "<A -009223372036854775809 1.2.3>",
      t.text = "-009223372036854775809".toList ∧ BeginsWord t.text ∧
        t.lexeme = .malformed (.integerRange .tooSmall)) ∧
    ∃ t ∈ tokenize "<A -009223372036854775809 1.2.3>",
      t.text = "1.2.3".toList ∧ BeginsWord t.text ∧ t.lexeme = .atom "1.2.3" := by
  have htexts : (tokenize "<A -009223372036854775809 1.2.3>").map Token.text =
      ["<".toList, "A".toList, "-009223372036854775809".toList, "1.2.3".toList, ">".toList, []] := by
    cbv
  have hnumber := List.mem_map.mp (htexts ▸ by decide :
    "-009223372036854775809".toList ∈ (tokenize "<A -009223372036854775809 1.2.3>").map Token.text)
  have hword := List.mem_map.mp (htexts ▸ by decide :
    "1.2.3".toList ∈ (tokenize "<A -009223372036854775809 1.2.3>").map Token.text)
  constructor
  · obtain ⟨t, ht, htext⟩ := hnumber
    have hbegins : BeginsWord t.text := ⟨'-', by rw [htext]; rfl, by decide⟩
    obtain ⟨-, hdigits, -, -⟩ := tokenize_bareWord ht hbegins
    have hsplit : t.text = ['-'] ++ "009223372036854775809".toList := htext
    obtain ⟨-, -, hsmall⟩ := hdigits _ _ (.inr (.inl rfl)) ⟨by decide, List.all_eq_true.mp (by decide)⟩ hsplit
    exact ⟨t, ht, htext, hbegins, hsmall (by decide +kernel)⟩
  · obtain ⟨t, ht, htext⟩ := hword
    have hbegins : BeginsWord t.text := ⟨'1', by rw [htext]; rfl, by decide⟩
    obtain ⟨-, -, -, hatom⟩ := tokenize_bareWord ht hbegins
    have hother : ¬ NumberShaped t.text := by
      rw [htext]
      decide
    refine ⟨t, ht, htext, hbegins, (hatom hother).trans ?_⟩
    rw [htext]
    rfl

end TextAdventure
