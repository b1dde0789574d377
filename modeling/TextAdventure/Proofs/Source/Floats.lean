import TextAdventure.Proofs.Number.Shortest
import TextAdventure.Proofs.Source.Numerals
import TextAdventure.Proofs.Source.Recovery
import TextAdventure.Proofs.Source.RoundTrip
import TextAdventure.Proofs.Source.Spelling

/-!
Float literals through the printer.

A literal with a point is read as the nearest float, and a finite float is printed with digits on
both sides of a point, so it is read as a float again, and as the same one.  A literal that is too
large for every finite float is read as an infinity, though, and no literal stands for an infinity:
its text is a word like any other.

* `Lexeme.ofWord_point` — two runs of digits around a point are read as a float;
* `lexemesOf_literalText` — what the printed text of a float is cut into;
* `isNaN_of_mem_tokensFrom` — no literal is read as something that is no number;
* `tokenize_print_float` — a float that was read from a text is printed as a literal for the same
  float exactly when it is finite, and as an atom otherwise.
-/

namespace TextAdventure

/-! ### Words with a point -/

/-- An optional minus sign and two runs of digits around a point are read as a float. -/
theorem Lexeme.ofWord_point (negative : Bool) {whole fraction : List Char} (hwhole : IsDigits whole)
    (hfraction : IsDigits fraction) :
    Lexeme.ofWord ((if negative then ['-'] else []) ++ (whole ++ '.' :: fraction)) =
      .literal (.float (Binary64.ofDecimal negative whole fraction)) := by
  cases negative with
  | true => exact Lexeme.ofWord_decimal (.inr (.inl rfl)) hwhole hfraction
  | false => exact Lexeme.ofWord_decimal (.inl rfl) hwhole hfraction

/-- A word with a point, cut off from a text. -/
theorem lexemesOf_point (negative : Bool) {whole fraction rest : List Char}
    (hwhole : IsDigits whole) (hfraction : IsDigits fraction) (hrest : EndsWord rest) :
    lexemesOf ((if negative then ['-'] else []) ++ (whole ++ '.' :: fraction) ++ rest) =
      .literal (.float (Binary64.ofDecimal negative whole fraction)) :: lexemesOf rest := by
  have hpart : ∀ d ∈ whole ++ '.' :: fraction, isWordChar d = true := by
    intro d hd
    rcases List.mem_append.mp hd with hd | hd
    · exact isWordChar_of_isDigit (hwhole.2 d hd)
    · rcases List.mem_cons.mp hd with rfl | hd
      · decide
      · exact isWordChar_of_isDigit (hfraction.2 d hd)
  rw [← Lexeme.ofWord_point negative hwhole hfraction]
  cases negative with
  | true => exact lexemesOf_word (by decide) hpart hrest
  | false =>
    obtain ⟨c, cs, rfl⟩ := List.exists_cons_of_ne_nil hwhole.1
    exact lexemesOf_word (startsWord_of_isDigit (hwhole.2 c List.mem_cons_self))
      (fun d hd => hpart d (List.mem_cons_of_mem _ hd)) hrest

/-! ### The text of a float -/

/-- What a float is read as when it is printed: itself if it is finite, and a word otherwise. -/
def Binary64.readBack (x : Binary64) : Lexeme :=
  if x.isFinite then .literal (.float x)
  else if x.isNaN then .atom "NaN"
  else .atom (if x.isNegative then "-inf" else "inf")

theorem Binary64.literalText_of_not_isFinite {x : Binary64} (hx : x.isFinite = false) :
    x.literalText = if x.isNaN then "NaN" else if x.isNegative then "-inf" else "inf" := by
  have hge : infinityWord ≤ x.magnitude := by simpa [isFinite] using hx
  rw [literalText, if_neg (by simp [isWhole, hx]), text]
  cases hnan : x.isNaN with
  | true => rfl
  | false =>
    have hinfinite : x.isInfinite = true := by
      have hle : x.magnitude ≤ infinityWord := by simpa [isNaN] using hnan
      rw [isInfinite, beq_iff_eq]
      omega
    rw [hinfinite]
    cases x.isNegative <;> rfl

/-- The text of a float is one token, whatever stands behind it. -/
theorem lexemesOf_literalText (x : Binary64) {rest : List Char} (hrest : EndsWord rest) :
    lexemesOf (x.literalText.toList ++ rest) = x.readBack :: lexemesOf rest := by
  rw [Binary64.readBack]
  cases hx : x.isFinite with
  | true =>
    obtain ⟨whole, fraction, htext, hwhole, hfraction, hread⟩ :=
      Binary64.literalText_of_isFinite hx
    rw [htext, lexemesOf_point _ hwhole hfraction hrest, hread]
    rfl
  | false =>
    rw [Binary64.literalText_of_not_isFinite hx]
    cases x.isNaN with
    | true => exact lexemesOf_atom (by decide : IsAtomName "NaN") hrest
    | false =>
      cases x.isNegative with
      | true => exact lexemesOf_atom (by decide : IsAtomName "-inf") hrest
      | false => exact lexemesOf_atom (by decide : IsAtomName "inf") hrest

/-! ### The floats in a text -/

theorem Binary64.isNaN_ofDecimal (negative : Bool) (whole fraction : List Char) :
    (Binary64.ofDecimal negative whole fraction).isNaN = false := by
  have hinfinity : infinityWord < 2 ^ 63 := by decide
  rw [ofDecimal, roundRatio_eq, isNaN, magnitude_ofParts (by omega)]
  exact decide_eq_false (by omega)

theorem isNaN_of_ofWord {word : List Char} {x : Binary64}
    (h : Lexeme.ofWord word = .literal (.float x)) : x.isNaN = false := by
  rw [Lexeme.ofWord] at h
  dsimp only at h
  split at h
  · cases h
  · split at h
    · split at h <;> cases h
    · split at h
      · cases h
        exact Binary64.isNaN_ofDecimal _ _ _
      · cases h
    · cases h

theorem isNaN_of_scan {c : Char} {cs : List Char} {x : Binary64}
    (h : (Lexeme.scan c cs).1 = .literal (.float x)) : x.isNaN = false := by
  have hnamed {mark : Char} {make : String → Lexeme}
      (hmake : ∀ name, make name ≠ .literal (.float x)) :
      (Lexeme.named mark make cs).1 ≠ .literal (.float x) := by
    rw [Lexeme.named]
    split
    · intro hnone
      cases hnone
    · exact hmake _
  unfold Lexeme.scan at h
  split at h
  case h_19 => exact isNaN_of_ofWord h
  case h_10 => split at h <;> cases h
  case h_11 => split at h <;> cases h
  case h_12 => exact absurd h (hnamed fun _ hmade => by cases hmade)
  case h_13 => exact absurd h (hnamed fun _ hmade => by cases hmade)
  case h_14 => exact absurd h (hnamed fun _ hmade => by cases hmade)
  all_goals cases h

/-- No literal in a text is read as something that is no number. -/
theorem isNaN_of_mem_tokensFrom (p : Position) (cs : List Char) {t : Token}
    (ht : t ∈ tokensFrom p cs) {x : Binary64} (hx : t.lexeme = .literal (.float x)) :
    x.isNaN = false := by
  fun_induction tokensFrom p cs with
  | case1 p =>
    rw [List.mem_singleton.mp ht] at hx
    cases hx
  | case2 p c cs hblank ih => exact ih ht
  | case3 p c cs hblank scanned text q ih =>
    rcases List.mem_cons.mp ht with rfl | ht
    · exact isNaN_of_scan hx
    · exact ih ht

theorem Node.Within.mem_lexemesAll {nodes : List Node} {node : Node} (h : Node.Within nodes node) :
    ∀ l ∈ node.lexemes, l ∈ Node.lexemesAll nodes := by
  induction h with
  | top hmem =>
    intro l hl
    rw [Node.lexemesAll_eq]
    exact List.mem_flatten.mpr ⟨_, List.mem_map_of_mem hmem, hl⟩
  | @child node part _ hchild ih =>
    intro l hl
    refine ih l ?_
    have hpart : ∀ parts : List Node, part ∈ parts → l ∈ Node.lexemesAll parts := by
      intro parts hmem
      rw [Node.lexemesAll_eq]
      exact List.mem_flatten.mpr ⟨_, List.mem_map_of_mem hmem, hl⟩
    cases node with
    | form operator args span =>
      rw [Node.lexemes]
      simp [hpart args hchild]
    | list items span =>
      rw [Node.lexemes]
      simp [hpart items hchild]
    | marked marker body span =>
      have hbody := hpart [body] hchild
      rw [Node.lexemesAll, Node.lexemesAll, List.append_nil] at hbody
      rw [Node.lexemes]
      exact List.mem_cons_of_mem _ hbody
    | empty span => cases hchild
    | atom name span => cases hchild
    | reference sigil name span => cases hchild
    | literal value span => cases hchild

/-- Reading on behind mistakes makes nodes of the lexemes of the text alone. -/
theorem mem_lexemesAll_readRecovering {r : Reader} {skipping : Bool} {errors : List SyntaxError}
    {ts : List Token} {l : Lexeme}
    (h : l ∈ Node.lexemesAll (readRecovering r skipping errors ts).1) :
    l ∈ r.word ∨ ∃ t ∈ ts, t.lexeme = l := by
  have hheld : ∀ (r : Reader), l ∈ Node.lexemesAll r.nodes.reverse → l ∈ r.word := by
    intro r hl
    exact List.mem_append_left _ hl
  fun_induction readRecovering r skipping errors ts with
  | case1 r skipping errors => exact .inl (hheld r h)
  | case2 r skipping errors t ts hend => exact .inl (hheld r h)
  | case3 r skipping errors t ts hend hskip ih =>
    rcases ih h with hword | ⟨u, hu, rfl⟩
    · exact .inl hword
    · exact .inr ⟨u, List.mem_cons_of_mem _ hu, rfl⟩
  | case4 r skipping errors t ts hend hskip next hnext ih =>
    rcases ih h with hword | ⟨u, hu, rfl⟩
    · rw [Reader.word_accept hnext] at hword
      rcases List.mem_append.mp hword with hword | hmem
      · exact .inl hword
      · obtain ⟨u, hu, rfl⟩ := List.mem_map.mp (List.mem_of_mem_filter hmem)
        rw [List.mem_singleton.mp hu]
        exact .inr ⟨t, List.mem_cons_self, rfl⟩
    · exact .inr ⟨u, List.mem_cons_of_mem _ hu, rfl⟩
  | case5 r skipping errors t ts hend hskip e he hline ih =>
    rcases ih h with hword | ⟨u, hu, rfl⟩
    · rcases List.mem_append.mp hword with hword | hopen
      · exact .inl (hheld r hword)
      · refine .inr ⟨t, List.mem_cons_self, ?_⟩
        rw [(Token.lexeme_of_startsLine hline).1]
        exact (List.mem_singleton.mp hopen).symm
    · exact .inr ⟨u, List.mem_cons_of_mem _ hu, rfl⟩
  | case6 r skipping errors t ts hend hskip e he hline ih =>
    rcases ih h with hword | ⟨u, hu, rfl⟩
    · refine .inl (hheld r ?_)
      simpa [Reader.word, Reader.openedWord] using hword
    · exact .inr ⟨u, List.mem_cons_of_mem _ hu, rfl⟩

/-- A node that is read from a text, at any depth: with all the others, as the first of them or
past mistakes. -/
inductive Node.ReadFrom (source : String) (node : Node) : Prop
  | whole {nodes : List Node} (h : parse source = .ok nodes) (hin : Node.Within nodes node)
  | first {first : Node} (h : parseOne source = .ok first) (hin : Node.Within [first] node)
  | recovering (hin : Node.Within (parseRecovering source).1 node)

theorem mem_map_of_mem_sourceLexemes {source : String} {l : Lexeme} (h : l ∈ sourceLexemes source) :
    ∃ t ∈ tokenize source, t.lexeme = l :=
  List.mem_map.mp ((List.takeWhile_sublist _).mem (List.mem_of_mem_filter h))

/-- A literal that is read from a text is one of its tokens. -/
theorem Node.ReadFrom.exists_token {source : String} {value : Literal} {span : Span}
    (h : Node.ReadFrom source (.literal value span)) :
    ∃ t ∈ tokenize source, t.lexeme = .literal value := by
  have hself : Lexeme.literal value ∈ (Node.literal value span).lexemes := by
    rw [Node.lexemes]
    exact List.mem_singleton_self _
  cases h with
  | @whole nodes hparse hin =>
    obtain ⟨hlexemes, -⟩ := (exists_parse_iff source nodes).mp ⟨nodes, hparse, rfl⟩
    refine mem_map_of_mem_sourceLexemes ?_
    rw [← hlexemes]
    exact hin.mem_lexemesAll _ hself
  | @first first hparse hin =>
    have hbegins := (exists_parseOne_iff source first).mp ⟨first, hparse, rfl⟩
    have hmem := hin.mem_lexemesAll _ hself
    rw [Node.lexemesAll, Node.lexemesAll, List.append_nil] at hmem
    exact mem_map_of_mem_sourceLexemes (hbegins.subset hmem)
  | recovering hin =>
    rcases mem_lexemesAll_readRecovering (hin.mem_lexemesAll _ hself) with hword | htoken
    · cases hword
    · exact htoken

theorem map_lexeme_tokenize (source : String) :
    (tokenize source).map Token.lexeme = lexemesOf source.toList ++ [.endOfInput] := by
  obtain ⟨body, last, hbody, hlast, hformed⟩ := tokensFrom_eq_append Position.start source.toList
  have hends : ∀ l ∈ body.map Token.lexeme, l ≠ .endOfInput := by
    intro l hl hend
    obtain ⟨t, ht, rfl⟩ := List.mem_map.mp hl
    have h := hformed t ht
    rw [hend] at h
    exact h
  rw [lexemesOf, tokenize, hbody, List.map_append, List.map_cons, List.map_nil, hlast,
    List.takeWhile_append_of_pos (by simpa using hends)]
  simp

/-- A float that is read from a text is printed as a literal for the same float when it is finite;
an infinity is printed as an atom. -/
theorem tokenize_print_float {source : String} {x : Binary64} {span : Span}
    (h : Node.ReadFrom source (.literal (.float x) span)) :
    (tokenize (Node.literal (.float x) span).print).map Token.lexeme =
      [if x.isFinite then .literal (.float x) else .atom (if x.isNegative then "-inf" else "inf"),
        .endOfInput] := by
  obtain ⟨t, ht, hlexeme⟩ := h.exists_token
  have hnan := isNaN_of_mem_tokensFrom _ _ ht hlexeme
  have htext := lexemesOf_literalText x endsWord_nil
  rw [List.append_nil, lexemesOf_nil, Binary64.readBack, hnan] at htext
  rw [map_lexeme_tokenize, Node.print, Node.printChars, Node.printLiteral, String.toList_ofList,
    htext]
  rfl

/-- A text of two runs of digits around a point is read as the nearest float. -/
theorem parse_point (negative : Bool) {whole fraction : List Char} (hwhole : IsDigits whole)
    (hfraction : IsDigits fraction) :
    ∃ span, parse (String.ofList ((if negative then ['-'] else []) ++ (whole ++ '.' :: fraction))) =
      .ok [.literal (.float (Binary64.ofDecimal negative whole fraction)) span] := by
  have htext := lexemesOf_point negative hwhole hfraction endsWord_nil
  rw [List.append_nil, lexemesOf_nil] at htext
  obtain ⟨read, hread, hsame⟩ := (exists_parse_iff _
    [.literal (.float (Binary64.ofDecimal negative whole fraction)) default]).mpr
    ⟨by rw [sourceLexemes_eq, String.toList_ofList, htext]; rfl, by simp [Node.isEmptyForm]⟩
  obtain ⟨node, rfl, hnode⟩ := hsame.exists_eq_singleton
  cases node with
  | literal value span =>
    rw [Node.SameTree, Node.bare, Node.bare] at hnode
    cases hnode
    exact ⟨span, hread⟩
  | form operator args span => cases hnode
  | list items span => cases hnode
  | empty span => cases hnode
  | atom name span => cases hnode
  | reference sigil name span => cases hnode
  | marked marker body span => cases hnode

/-- One half, below zero: `-0.50` is printed as `-0.5`. -/
theorem tokenize_print_float_half : ∃ span,
    Node.ReadFrom "-0.50" (.literal (.float ⟨0xbfe0000000000000⟩) span) ∧
      (tokenize (Node.literal (.float ⟨0xbfe0000000000000⟩) span).print).map Token.lexeme =
        [.literal (.float ⟨0xbfe0000000000000⟩), .endOfInput] := by
  have hhalf : Binary64.ofDecimal true ['0'] ['5', '0'] = ⟨0xbfe0000000000000⟩ := by decide +kernel
  have hwhole : IsDigits ['0'] := by decide
  have hfraction : IsDigits ['5', '0'] := by decide
  obtain ⟨span, hparse⟩ := parse_point true hwhole hfraction
  have hsource : String.ofList ((if true then ['-'] else []) ++ (['0'] ++ '.' :: ['5', '0'])) =
      "-0.50" := rfl
  rw [hhalf, hsource] at hparse
  have hread : Node.ReadFrom "-0.50" (.literal (.float ⟨0xbfe0000000000000⟩) span) :=
    .whole hparse (.top (List.mem_singleton_self _))
  exact ⟨span, hread, tokenize_print_float hread⟩

/-- The 311th power of ten is read as an infinity, which is printed as an atom. -/
theorem tokenize_print_overflow : ∃ span x,
    parse (String.ofList ('1' :: List.replicate 311 '0' ++ ['.', '0'])) =
        .ok [.literal (.float x) span] ∧
      (tokenize (Node.literal (.float x) span).print).map Token.lexeme =
        [.atom "inf", .endOfInput] := by
  have hlarge : Binary64.ofDecimal false ('1' :: List.replicate 311 '0') ['0'] =
      ⟨0x7ff0000000000000⟩ := by decide +kernel
  have hwhole : IsDigits ('1' :: List.replicate 311 '0') := by decide +kernel
  have hfraction : IsDigits ['0'] := by decide
  obtain ⟨span, hparse⟩ := parse_point false hwhole hfraction
  rw [hlarge] at hparse
  refine ⟨span, _, hparse, ?_⟩
  have htext := lexemesOf_literalText ⟨0x7ff0000000000000⟩ endsWord_nil
  rw [List.append_nil, lexemesOf_nil] at htext
  rw [map_lexeme_tokenize, Node.print, Node.printChars, Node.printLiteral, String.toList_ofList,
    htext]
  rfl

end TextAdventure
