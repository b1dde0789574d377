import Mathlib.Data.List.Induction
import TextAdventure.Proofs.Source.Displacement

/-!
Tokens tile a text.

The tokens of a text stand in it one behind the other, with blanks between them and nothing else,
and the place of each is what one counts in the text before it.  How a token is cut off depends on
its own characters alone, so a piece of the text that ends with a token has the same tokens as it
has within the text.

* `slice?` — the stretch of a text between two byte offsets;
* `Position.advance_start_column` — the column of a place, counted;
* `Lexeme.scan_take` — what is behind a token does not matter to it;
* `tokensFrom_covered` — the tokens of a text that ends with one of them;
* `Tiles` — a row of tokens covers a text from a place on;
* `token_fits` — the line and the column of a token, in a text that is not too long;
* `tokenize_tiles` — the tokens of a text tile it, and each has its place and its own text.

Design notes.  `Tiles` goes along the text as the cutting does.  All that is said about order,
gaps and places is read off its splits (`Tiles.split`).
-/

namespace TextAdventure

/-! ### Stretches of a text -/

/-- Cuts a text behind its first `n` bytes.  No cut goes through a character or behind the end. -/
def cutBytes : Nat → List Char → Option (List Char × List Char)
  | 0, cs => some ([], cs)
  | _ + 1, [] => none
  | n + 1, c :: cs =>
    if c.utf8Size ≤ n + 1 then
      (cutBytes (n + 1 - c.utf8Size) cs).map fun (front, rest) => (c :: front, rest)
    else none

/-- The stretch of a text between two byte offsets, when both are between characters. -/
def slice? (source : List Char) (start stop : Nat) : Option (List Char) :=
  match cutBytes start source with
  | some (_, rest) => if start ≤ stop then (cutBytes (stop - start) rest).map Prod.fst else none
  | none => none

theorem cutBytes_append (front rest : List Char) :
    cutBytes (Displacement.behind front).bytes (front ++ rest) = some (front, rest) := by
  induction front with
  | nil => rw [Displacement.behind_nil, Displacement.zero_bytes, cutBytes, List.nil_append]
  | cons c front ih =>
    have hsize := c.utf8Size_pos
    obtain ⟨n, hn⟩ : ∃ n, (Displacement.behind (c :: front)).bytes = n + 1 :=
      ⟨_, (Nat.succ_pred_eq_of_pos (by rw [Displacement.behind_cons_bytes]; omega)).symm⟩
    have hleft : n + 1 - c.utf8Size = (Displacement.behind front).bytes := by
      rw [Displacement.behind_cons_bytes] at hn
      omega
    have hfits : c.utf8Size ≤ n + 1 := by
      rw [Displacement.behind_cons_bytes] at hn
      omega
    rw [hn, List.cons_append, cutBytes, if_pos hfits, hleft, ih]
    rfl

theorem slice?_append (before text after : List Char) :
    slice? (before ++ (text ++ after)) (Displacement.behind before).bytes
      (Displacement.behind (before ++ text)).bytes = some text := by
  have hstop : (Displacement.behind (before ++ text)).bytes - (Displacement.behind before).bytes =
      (Displacement.behind text).bytes := by
    rw [Displacement.behind_append, Displacement.add_bytes]
    omega
  have hle : (Displacement.behind before).bytes ≤ (Displacement.behind (before ++ text)).bytes := by
    rw [Displacement.behind_append, Displacement.add_bytes]
    omega
  rw [slice?, cutBytes_append]
  dsimp only
  rw [if_pos hle, hstop, cutBytes_append]
  rfl

-- two bytes are one character, and there is no cut between them
example : slice? "aé<".toList 1 3 = some ['é'] ∧ slice? "aé<".toList 2 4 = none := by decide

/-- The stretch of a text that a span covers. -/
def Span.text? (source : List Char) (s : Span) : Option (List Char) := slice? source s.start s.stop

/-! ### Places, counted -/

/-- The characters of a text behind its last newline. -/
def lastLine (cs : List Char) : List Char := (cs.reverse.takeWhile (· ≠ '\n')).reverse

theorem lastLine_concat (cs : List Char) (c : Char) :
    lastLine (cs ++ [c]) = if c = '\n' then [] else lastLine cs ++ [c] := by
  rw [lastLine, List.reverse_append, List.reverse_singleton, List.singleton_append]
  by_cases hc : c = '\n'
  · rw [if_pos hc, List.takeWhile_cons_of_neg (by simp [hc])]
    rfl
  · rw [if_neg hc, List.takeWhile_cons_of_pos (by simp [hc]), List.reverse_cons]
    rfl

theorem length_lastLine_le (cs : List Char) : (lastLine cs).length ≤ cs.length := by
  have h := (List.takeWhile_sublist (l := cs.reverse) (· ≠ '\n')).length_le
  rw [lastLine, List.length_reverse]
  simpa using h

namespace Position

theorem offset_le_advance (p : Position) (cs : List Char) : p.offset ≤ (p.advance cs).offset := by
  rw [advance_offset]
  exact Nat.le_add_right _ _

theorem advance_start_offset (cs : List Char) :
    (start.advance cs).offset = (Displacement.behind cs).bytes := by
  rw [advance_offset]
  exact Nat.zero_add _

theorem advance_start_line (cs : List Char) : (start.advance cs).line = 1 + cs.count '\n' :=
  start.advance_line cs

/-- Columns count the characters since the last newline. -/
theorem advance_start_column (cs : List Char) :
    (start.advance cs).column = 1 + (lastLine cs).length := by
  induction cs using List.reverseRecOn with
  | nil => rfl
  | append_singleton cs c ih =>
    rw [advance_append, advance_cons, lastLine_concat, next]
    by_cases hc : c = '\n'
    · rw [if_pos hc, if_pos hc]
      rfl
    · rw [if_neg hc, if_neg hc, List.length_append]
      show (start.advance cs).column + 1 = _
      rw [ih]
      rfl

end Position

/-! ### Where a token is cut off -/

/-- A string literal is known from its own characters. -/
theorem Text.readQuoted_split {cs text rest : List Char} (h : readQuoted cs = some (text, rest)) :
    ∃ taken, cs = taken ++ rest ∧ ∀ more, readQuoted (taken ++ more) = some (text, more) := by
  fun_induction readQuoted cs generalizing text rest with
  | case1 => cases h
  | case2 cs =>
    cases h
    exact ⟨['"'], rfl, fun more => by rw [List.singleton_append, readQuoted]⟩
  | case3 c cs ih =>
    obtain ⟨⟨inner, left⟩, hinner, heq⟩ := Option.map_eq_some_iff.mp h
    cases heq
    obtain ⟨taken, rfl, hread⟩ := ih hinner
    refine ⟨'\\' :: c :: taken, rfl, fun more => ?_⟩
    rw [List.cons_append, List.cons_append, readQuoted, hread]
    rfl
  | case4 => cases h
  | case5 c cs hquote hescape hslash ih =>
    obtain ⟨⟨inner, left⟩, hinner, heq⟩ := Option.map_eq_some_iff.mp h
    cases heq
    obtain ⟨taken, rfl, hread⟩ := ih hinner
    refine ⟨c :: taken, rfl, fun more => ?_⟩
    rw [List.cons_append, readQuoted, if_neg hslash, hread]
    · rfl
    · exact hquote
    · intro d ds hc
      exact absurd hc hslash

/-- What is cut off a text by the length of its run is the run. -/
theorem run_of_length_takeWhile {p : Char → Bool} {body rest : List Char}
    (h : ((body ++ rest).takeWhile p).length = body.length) :
    (∀ c ∈ body, p c = true) ∧ ∀ d ∈ rest.head?, p d = false := by
  induction body with
  | nil =>
    refine ⟨nofun, fun d hd => ?_⟩
    obtain ⟨ds, rfl⟩ := List.head?_eq_some_iff.mp hd
    by_contra hp
    rw [List.nil_append, List.takeWhile_cons_of_pos (by simpa using hp)] at h
    cases h
  | cons c body ih =>
    by_cases hc : p c = true
    · rw [List.cons_append, List.takeWhile_cons_of_pos hc] at h
      obtain ⟨hbody, hrest⟩ := ih (Nat.succ.inj h)
      exact ⟨List.forall_mem_cons.mpr ⟨hc, hbody⟩, hrest⟩
    · rw [List.cons_append, List.takeWhile_cons_of_neg hc] at h
      cases h

theorem takeWhile_take {p : Char → Bool} {cs : List Char} {k : Nat}
    (h : (cs.takeWhile p).length ≤ k) : (cs.take k).takeWhile p = cs.takeWhile p := by
  rw [← List.take_takeWhile, List.take_of_length_le h]

namespace Lexeme

/-- A token that begins with `c` takes a run of characters of some kind, and no newline. -/
def TakesRun (c : Char) : Prop :=
  ∃ (make : List Char → Lexeme) (p : Char → Bool), p '\n' = false ∧
    ∀ cs, scan c cs = (make (cs.takeWhile p), (cs.takeWhile p).length)

theorem takesRun_of_single {c : Char} {l : Lexeme} (h : ∀ cs, scan c cs = (l, 0)) :
    TakesRun c := by
  refine ⟨fun _ => l, fun _ => false, rfl, fun cs => ?_⟩
  rw [h]
  cases cs <;> rfl

theorem takesRun_of_named {c : Char} (mark : Char) (make : String → Lexeme)
    (h : ∀ cs, scan c cs = named mark make cs) : TakesRun c := by
  refine ⟨fun name => if name.isEmpty then .malformed (.missingName mark)
    else make (String.ofList name), isWordChar, by decide, fun cs => ?_⟩
  rw [h, named]
  dsimp only
  split
  · rename_i hempty
    rw [List.isEmpty_iff.mp hempty]
    rfl
  · rfl

/-- The three ways in which a token is cut off. -/
theorem scan_cases {c : Char} (hc : isBlank c = false) : TakesRun c ∨ c = '"' ∨ c = '\\' := by
  fun_cases scan c []
  case case9 => exact .inl ⟨fun text => .comment (String.ofList (';' :: text)), _, rfl, fun _ => rfl⟩
  case case10 => exact .inr (.inl rfl)
  case case11 => exact .inr (.inl rfl)
  case case12 => exact .inr (.inr rfl)
  case case13 => exact .inr (.inr rfl)
  case case14 => exact .inl (takesRun_of_named '#' (fun name => .marker (.tag name)) fun _ => rfl)
  case case15 => exact .inl (takesRun_of_named '.' (.reference .dot) fun _ => rfl)
  case case16 => exact .inl (takesRun_of_named ',' (.reference .comma) fun _ => rfl)
  case case21 =>
    -- every character that begins a token of another kind has been dealt with
    have hword : startsWord c = true := by simp_all [startsWord, isWordChar, isMarkerChar]
    exact .inl ⟨fun rest => ofWord (c :: rest), isWordChar, by decide, scan_of_startsWord hword⟩
  all_goals exact .inl (takesRun_of_single fun _ => rfl)

theorem scan_quote_of_some {cs text rest : List Char}
    (h : Text.readQuoted cs = some (text, rest)) :
    scan '"' cs = (.literal (.string (String.ofList text)), cs.length - rest.length) := by
  show (match Text.readQuoted cs with | some (text, rest) => _ | none => _) = _
  rw [h]

theorem scan_quote_of_none {cs : List Char} (h : Text.readQuoted cs = none) :
    scan '"' cs = (.malformed .unterminatedString, cs.length) := by
  show (match Text.readQuoted cs with | some (text, rest) => _ | none => _) = _
  rw [h]

/-- A token ends within the text. -/
theorem scan_snd_le {c : Char} (hc : isBlank c = false) (cs : List Char) :
    (scan c cs).2 ≤ cs.length := by
  rcases scan_cases hc with ⟨make, p, -, hscan⟩ | rfl | rfl
  · rw [hscan]
    exact (List.takeWhile_sublist p).length_le
  · rcases hread : Text.readQuoted cs with _ | ⟨text, rest⟩
    · exact Nat.le_of_eq (congrArg Prod.snd (scan_quote_of_none hread))
    · rw [scan_quote_of_some hread]
      exact Nat.sub_le _ _
  · cases cs with
    | nil => exact Nat.le_refl 0
    | cons d ds => exact Nat.le_add_left 1 _

/-- What is behind a token does not matter to it. -/
theorem scan_take {c : Char} (hc : isBlank c = false) {cs : List Char} {k : Nat}
    (h : (scan c cs).2 ≤ k) : scan c (cs.take k) = scan c cs := by
  rcases scan_cases hc with ⟨make, p, -, hscan⟩ | rfl | rfl
  · rw [hscan] at h
    rw [hscan, hscan, takeWhile_take h]
  · rcases hread : Text.readQuoted cs with _ | ⟨text, rest⟩
    · -- a literal that is not closed takes the whole text
      rw [scan_quote_of_none hread] at h
      rw [List.take_of_length_le h]
    · rw [scan_quote_of_some hread] at h
      obtain ⟨taken, rfl, htaken⟩ := Text.readQuoted_split hread
      have hle : taken.length ≤ k := by simpa using h
      have hcut : (taken ++ rest).take k = taken ++ rest.take (k - taken.length) := by
        rw [List.take_append, List.take_of_length_le hle]
      rw [hcut, scan_quote_of_some (htaken _), scan_quote_of_some hread]
      simp
  · cases cs with
    | nil => rw [List.take_nil]
    | cons d ds =>
      obtain ⟨k, rfl⟩ := Nat.exists_eq_add_of_le' h
      rfl

/-- A token that takes the characters `body` takes them also where the text behind it is cut. -/
theorem scan_of_cut {c : Char} (hc : isBlank c = false) {body kept cut : List Char} {l : Lexeme}
    (h : scan c (body ++ (kept ++ cut)) = (l, body.length)) :
    scan c (body ++ kept) = (l, body.length) := by
  have hwithin : (scan c (body ++ (kept ++ cut))).2 ≤ (body ++ kept).length := by
    rw [h, List.length_append]
    exact Nat.le_add_right _ _
  have htake := scan_take hc hwithin
  rwa [← List.append_assoc, List.take_left, List.append_assoc, h] at htake

end Lexeme

/-! ### A text that ends with a token -/

/-- The token at the end of a text. -/
def Token.endAt (p : Position) : Token := ⟨.endOfInput, Span.between p p, []⟩

theorem tokensFrom_nil (p : Position) : tokensFrom p [] = [.endAt p] := by
  rw [tokensFrom]
  rfl

theorem tokensFrom_blank {c : Char} (hc : isBlank c = true) (p : Position) (cs : List Char) :
    tokensFrom p (c :: cs) = tokensFrom (p.next c) cs := by
  rw [tokensFrom, if_pos hc]

/-- A token that takes the characters `body` and leaves `rest`. -/
theorem tokensFrom_scan {c : Char} {body rest : List Char} {l : Lexeme} (hc : isBlank c = false)
    (h : Lexeme.scan c (body ++ rest) = (l, body.length)) (p : Position) :
    tokensFrom p (c :: (body ++ rest)) =
      ⟨l, Span.between p (p.advance (c :: body)), c :: body⟩ ::
        tokensFrom (p.advance (c :: body)) rest := by
  rw [tokensFrom, if_neg (by simp [hc]), h]
  simp

/-- Induction along a text, token by token. -/
@[elab_as_elim]
theorem tokens_induction {motive : Position → List Char → Prop} (nil : ∀ p, motive p [])
    (blank : ∀ p c cs, isBlank c = true → motive (p.next c) cs → motive p (c :: cs))
    (token : ∀ p c body rest l, isBlank c = false →
      Lexeme.scan c (body ++ rest) = (l, body.length) →
      motive (p.advance (c :: body)) rest → motive p (c :: (body ++ rest)))
    (p : Position) (cs : List Char) : motive p cs := by
  fun_induction tokensFrom p cs with
  | case1 p => exact nil p
  | case2 p c cs hblank ih => exact blank p c cs hblank ih
  | case3 p c cs hblank scanned text q ih =>
    have hc : isBlank c = false := by simpa using hblank
    have hlength : (cs.take scanned.2).length = scanned.2 :=
      List.length_take_of_le (Lexeme.scan_snd_le hc cs)
    have hstep := token p c (cs.take scanned.2) (cs.drop scanned.2) scanned.1 hc
      (by rw [List.take_append_drop, hlength]) ih
    rwa [List.take_append_drop] at hstep

/-- Where a row of tokens ends: behind its last token, or at `start` when there is none. -/
def stopOf (start : Nat) : List Token → Nat
  | [] => start
  | t :: ts => stopOf t.span.stop ts

/-- Tokens of a text, but not its end, are the tokens of a piece of the text that ends with the
last of them. -/
theorem tokensFrom_covered {p : Position} {cs : List Char} {ts us : List Token}
    (h : tokensFrom p cs = ts ++ us) (hus : us ≠ []) :
    ∃ covered after, cs = covered ++ after ∧
      tokensFrom p covered = ts ++ [.endAt (p.advance covered)] ∧
      stopOf p.offset ts = (p.advance covered).offset := by
  induction p, cs using tokens_induction generalizing ts with
  | nil p =>
    rw [tokensFrom_nil] at h
    have hts : ts = [] := by
      rcases List.append_eq_singleton_iff.mp h.symm with ⟨hnil, -⟩ | ⟨-, hnil⟩
      · exact hnil
      · exact absurd hnil hus
    refine ⟨[], [], rfl, ?_, ?_⟩
    · rw [tokensFrom_nil, hts]
      rfl
    · rw [hts]
      rfl
  | blank p c cs hc ih =>
    cases ts with
    | nil => exact ⟨[], c :: cs, rfl, tokensFrom_nil p, rfl⟩
    | cons t ts =>
      rw [tokensFrom_blank hc] at h
      obtain ⟨covered, after, rfl, htokens, hstop⟩ := ih h
      refine ⟨c :: covered, after, rfl, ?_, hstop⟩
      rw [tokensFrom_blank hc, htokens]
      rfl
  | token p c body rest l hc hscan ih =>
    cases ts with
    | nil => exact ⟨[], c :: (body ++ rest), rfl, tokensFrom_nil p, rfl⟩
    | cons t ts =>
      rw [tokensFrom_scan hc hscan] at h
      obtain ⟨rfl, hrest⟩ := List.cons.inj h
      obtain ⟨covered, after, rfl, htokens, hstop⟩ := ih hrest
      -- the first token is cut off at the same place, for what is left out is behind it
      have hcut := Lexeme.scan_of_cut hc hscan
      refine ⟨c :: (body ++ covered), after, by simp, ?_, ?_⟩
      · rw [tokensFrom_scan hc hcut, htokens, ← Position.advance_append]
        rfl
      · show stopOf (p.advance (c :: body)).offset ts = _
        rw [hstop, ← Position.advance_append]
        rfl

/-- The text of a token is that token and no other. -/
theorem tokensFrom_alone {p : Position} {cs : List Char} {t : Token} (ht : t ∈ tokensFrom p cs)
    (hlexeme : t.lexeme ≠ .endOfInput) (q : Position) :
    (tokensFrom q t.text).map Token.lexeme = [t.lexeme, .endOfInput] := by
  induction p, cs using tokens_induction with
  | nil p =>
    rw [tokensFrom_nil, List.mem_singleton] at ht
    rw [ht] at hlexeme
    exact absurd rfl hlexeme
  | blank p c cs hc ih =>
    rw [tokensFrom_blank hc] at ht
    exact ih ht
  | token p c body rest l hc hscan ih =>
    rw [tokensFrom_scan hc hscan] at ht
    rcases List.mem_cons.mp ht with rfl | ht
    · have halone : Lexeme.scan c (body ++ []) = (l, body.length) := Lexeme.scan_of_cut hc hscan
      show (tokensFrom q (c :: body)).map Token.lexeme = _
      rw [← List.append_nil body, tokensFrom_scan hc halone, tokensFrom_nil]
      rfl
    · exact ih ht

/-! ### Tiles -/

/-- A row of blanks. -/
def IsGap (gap : List Char) : Prop := ∀ c ∈ gap, isBlank c = true

/-- A row of tokens covers a text that begins at a given place: before each token there is a gap,
each but the last has some text of its own and stands where that text does, and the last is the end
of the text. -/
inductive Tiles : Position → List Char → List Token → Prop
  | stop {p : Position} {gap : List Char} (hgap : IsGap gap) :
      Tiles p gap [.endAt (p.advance gap)]
  | token {p : Position} {gap after : List Char} {t : Token} {ts : List Token} (hgap : IsGap gap)
      (hlexeme : t.lexeme ≠ .endOfInput) (htext : t.text ≠ [])
      (hspan : t.span = Span.between (p.advance gap) (p.advance (gap ++ t.text)))
      (hrest : Tiles (p.advance (gap ++ t.text)) after ts) :
      Tiles p (gap ++ (t.text ++ after)) (t :: ts)

theorem Tiles.blank {p : Position} {c : Char} {cs : List Char} {ts : List Token}
    (hc : isBlank c = true) (h : Tiles (p.next c) cs ts) : Tiles p (c :: cs) ts := by
  have hcons : ∀ {gap : List Char}, IsGap gap → IsGap (c :: gap) := by
    intro gap hgap d hd
    rcases List.mem_cons.mp hd with rfl | hd
    · exact hc
    · exact hgap d hd
  cases h with
  | stop hgap => exact .stop (hcons hgap)
  | token hgap hlexeme htext hspan hrest => exact .token (hcons hgap) hlexeme htext hspan hrest

theorem tokensFrom_tiles (p : Position) (cs : List Char) : Tiles p cs (tokensFrom p cs) := by
  induction p, cs using tokens_induction with
  | nil p =>
    rw [tokensFrom_nil]
    exact .stop nofun
  | blank p c cs hc ih =>
    rw [tokensFrom_blank hc]
    exact ih.blank hc
  | token p c body rest l hc hscan ih =>
    rw [tokensFrom_scan hc hscan]
    have hlexeme : l ≠ .endOfInput := by
      intro hl
      have hformed := Lexeme.scan_wellFormed hc (body ++ rest)
      rw [hscan, hl] at hformed
      exact hformed
    let t : Token := ⟨l, Span.between p (p.advance (c :: body)), c :: body⟩
    have hnogap : IsGap [] := nofun
    exact .token (t := t) hnogap hlexeme (List.cons_ne_nil _ _) rfl ih

namespace Tiles

variable {p : Position} {cs : List Char} {ts us : List Token} {u : Token}

/-- A token among those that cover a text: the text before it and behind it. -/
theorem split (h : Tiles p cs (ts ++ u :: us)) :
    ∃ before gap after, cs = before ++ (gap ++ (u.text ++ after)) ∧ IsGap gap ∧
      stopOf p.offset ts = (p.advance before).offset ∧
      u.span = Span.between (p.advance (before ++ gap)) (p.advance (before ++ gap ++ u.text)) ∧
      (us = [] → u.lexeme = .endOfInput ∧ u.text = [] ∧ after = []) ∧
      (us ≠ [] → u.lexeme ≠ .endOfInput ∧ u.text ≠ []) := by
  induction ts generalizing p cs with
  | nil =>
    cases h with
    | stop hgap =>
      refine ⟨[], cs, [], by simp [Token.endAt], hgap, rfl, ?_, fun _ => ⟨rfl, rfl, rfl⟩, ?_⟩
      · simp [Token.endAt]
      · exact fun hus => absurd rfl hus
    | @token _ gap after _ _ hgap hlexeme htext hspan hrest =>
      refine ⟨[], gap, after, rfl, hgap, rfl, hspan, ?_, fun _ => ⟨hlexeme, htext⟩⟩
      intro hus
      rw [hus] at hrest
      cases hrest
  | cons t ts ih =>
    rw [List.cons_append] at h
    generalize hrow : ts ++ u :: us = row at h
    cases h with
    | stop => simp at hrow
    | @token _ gap₁ rest _ _ _ _ _ hspan hrest =>
      subst hrow
      obtain ⟨before, gap, after, rfl, hgap, hstop, huspan, hend, hother⟩ := ih hrest
      refine ⟨gap₁ ++ t.text ++ before, gap, after, by simp, hgap, ?_, ?_, hend, hother⟩
      · rw [Position.advance_append, ← hstop, stopOf, hspan]
        rfl
      · rw [huspan, ← Position.advance_append, ← Position.advance_append]
        simp

theorem length_le (h : Tiles p cs ts) : ts.length ≤ cs.length + 1 := by
  induction h with
  | stop hgap => exact Nat.le_add_left 1 _
  | token hgap hlexeme htext hspan hrest ih =>
    have hpos := List.length_pos_of_ne_nil htext
    simp only [List.length_cons, List.length_append] at ih ⊢
    omega

/-- Tokens are in order and do not overlap. -/
theorem ordered (h : Tiles p cs ts) :
    (∀ t ∈ ts, p.offset ≤ t.span.start ∧ t.span.start ≤ t.span.stop) ∧
      ts.Pairwise fun t u => t.span.stop ≤ u.span.start := by
  induction h with
  | @stop p gap hgap =>
    refine ⟨fun t ht => ?_, List.pairwise_singleton _ _⟩
    rw [List.mem_singleton.mp ht]
    exact ⟨p.offset_le_advance gap, Nat.le_refl _⟩
  | @token p gap after t ts hgap hlexeme htext hspan hrest ih =>
    obtain ⟨hbounds, hpairs⟩ := ih
    have hstop : t.span.stop = (p.advance (gap ++ t.text)).offset := by rw [hspan]; rfl
    refine ⟨fun u hu => ?_, List.pairwise_cons.mpr ⟨fun u hu => ?_, hpairs⟩⟩
    · rcases List.mem_cons.mp hu with rfl | hu
      · rw [hspan, Position.advance_append]
        exact ⟨p.offset_le_advance gap, Position.offset_le_advance _ _⟩
      · exact ⟨Nat.le_trans (p.offset_le_advance _) (hbounds u hu).1, (hbounds u hu).2⟩
    · rw [hstop]
      exact (hbounds u hu).1

end Tiles

/-! ### The tokens of a text -/

theorem Displacement.behind_bytes_pos {cs : List Char} (h : cs ≠ []) : 0 < (behind cs).bytes := by
  obtain ⟨c, cs, rfl⟩ := List.exists_cons_of_ne_nil h
  have hsize := c.utf8Size_pos
  rw [behind_cons_bytes]
  omega

theorem tokenize_split {source : String} {ts us : List Token} {u : Token}
    (h : tokenize source = ts ++ u :: us) :
    ∃ before gap after, source.toList = before ++ (gap ++ (u.text ++ after)) ∧ IsGap gap ∧
      stopOf 0 ts = (Displacement.behind before).bytes ∧
      u.span = Span.between (Position.start.advance (before ++ gap))
        (Position.start.advance (before ++ gap ++ u.text)) ∧
      (us = [] → u.lexeme = .endOfInput ∧ u.text = [] ∧ after = []) ∧
      (us ≠ [] → u.lexeme ≠ .endOfInput ∧ u.text ≠ []) := by
  have htiles : Tiles .start source.toList (ts ++ u :: us) := by
    rw [← h, tokenize]
    exact tokensFrom_tiles _ _
  obtain ⟨before, gap, after, htext, hgap, hstop, hrest⟩ := htiles.split
  rw [Position.advance_start_offset] at hstop
  exact ⟨before, gap, after, htext, hgap, hstop, hrest⟩

/-- Where a token stands, and that it is cut off there alone. -/
theorem token_stands {source : String} {ts us : List Token} {t : Token}
    (h : tokenize source = ts ++ t :: us) :
    t.span.text? source.toList = some t.text ∧
    (∃ gap, slice? source.toList (stopOf 0 ts) t.span.start = some gap ∧ IsGap gap) ∧
    ∃ before, slice? source.toList 0 t.span.start = some before ∧
      t.span.line = 1 + before.count '\n' ∧ t.span.column = 1 + (lastLine before).length ∧
      before.length + t.text.length ≤ source.length := by
  obtain ⟨before, gap, after, htext, hgap, hstop, hspan, -, -⟩ := tokenize_split h
  have hstart : t.span.start = (Displacement.behind (before ++ gap)).bytes := by
    rw [hspan, ← Position.advance_start_offset]
    rfl
  have hstopAt : t.span.stop = (Displacement.behind (before ++ gap ++ t.text)).bytes := by
    rw [hspan, ← Position.advance_start_offset]
    rfl
  refine ⟨?_, ⟨gap, ?_, hgap⟩, before ++ gap, ?_, ?_, ?_, ?_⟩
  · rw [Span.text?, hstart, hstopAt, htext, ← List.append_assoc]
    exact slice?_append (before ++ gap) t.text after
  · rw [hstop, hstart, htext]
    exact slice?_append before gap (t.text ++ after)
  · rw [hstart, htext, ← List.append_assoc]
    exact slice?_append [] (before ++ gap) (t.text ++ after)
  · rw [hspan]
    exact Position.advance_start_line _
  · rw [hspan]
    exact Position.advance_start_column _
  · rw [← String.length_toList, htext]
    simp only [List.length_append]
    omega

/-- Every other token covers some characters, and these are that token and no other. -/
theorem token_covers {source : String} {ts us : List Token} {t : Token}
    (h : tokenize source = ts ++ t :: us) (hus : us ≠ []) :
    t.lexeme ≠ .endOfInput ∧ t.text ≠ [] ∧ t.span.start < t.span.stop ∧
      (tokenize (String.ofList t.text)).map Token.lexeme = [t.lexeme, .endOfInput] := by
  obtain ⟨before, gap, after, -, -, -, hspan, -, hother⟩ := tokenize_split h
  obtain ⟨hlexeme, htext⟩ := hother hus
  have hmem : t ∈ tokensFrom .start source.toList := by
    rw [← tokenize, h]
    simp
  refine ⟨hlexeme, htext, ?_, ?_⟩
  · have hpos := Displacement.behind_bytes_pos htext
    rw [hspan, Position.advance_append _ (before ++ gap)]
    show (Position.advance _ _).offset < (Position.advance _ t.text).offset
    rw [Position.advance_offset _ t.text]
    omega
  · rw [tokenize, String.toList_ofList]
    exact tokensFrom_alone hmem hlexeme .start

/-- The line and the column of a token are small, all the more the more of the text it covers. -/
theorem token_small {source : String} {t : Token} (h : t ∈ tokenize source) :
    t.span.line + t.text.length ≤ source.length + 1 ∧
      t.span.column + t.text.length ≤ source.length + 1 := by
  obtain ⟨earlier, later, hsplit⟩ := List.append_of_mem h
  obtain ⟨-, -, before, -, hline, hcolumn, hlength⟩ := token_stands hsplit
  have hcount : before.count '\n' ≤ before.length := List.count_le_length
  have hlast := length_lastLine_le before
  omega

/-- The line and the column of a span fit into 32 bits. -/
def Span.Fits (s : Span) : Prop := s.line < UInt32.size ∧ s.column < UInt32.size

theorem token_fits {source : String} (hsize : source.length + 1 < UInt32.size) {t : Token}
    (h : t ∈ tokenize source) : t.span.Fits := by
  obtain ⟨hline, hcolumn⟩ := token_small h
  constructor
  · omega
  · omega

/-- The other tokens are some text themselves, so less than the whole text is before them. -/
theorem token_fits_of_ne_nil {source : String} {ts us : List Token} {t : Token}
    (h : tokenize source = ts ++ t :: us) (hus : us ≠ []) (hsize : source.length < UInt32.size) :
    t.span.Fits := by
  obtain ⟨-, htext, -, -⟩ := token_covers h hus
  have hmem : t ∈ tokenize source := by
    rw [h]
    exact List.mem_append_right ts List.mem_cons_self
  obtain ⟨hline, hcolumn⟩ := token_small hmem
  have hpos := List.length_pos_of_ne_nil htext
  constructor
  · omega
  · omega

-- the newline in the literal counts for the token behind it, and the comment ends before its own
example : (tokenize "\\\né ;b\n").map (fun t => (t.lexeme.name, t.span.start, t.span.line)) =
    [("character", 0, 1), ("atom", 2, 2), ("comment", 5, 2), ("end of input", 8, 3)] := by
  cbv

end TextAdventure
