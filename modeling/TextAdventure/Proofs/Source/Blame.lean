import TextAdventure.Proofs.Source.RoundTrip
import TextAdventure.Proofs.Source.Units

/-!
What a mistake is blamed on.

A mistake is blamed on one token of the text, and reported with the place of this token and the
line that it stands in.  Reading stops at a token, and the tokens before it can be gone on with: all
that is open can be closed.  Where the text ends too early, the mistake is blamed on what was opened
last and is still open.

* `Failure.PointsAt` — a failure that reports a mistake at a token;
* `isPlaced_of_mem_readRecovering` — where the mistakes are that are collected;
* `Reader.Follows` — the tokens behind which reading is in a state, with those that began what is
  open;
* `Reader.exists_blamed` — the token that is blamed, and what stands before and behind it;
* `Reader.exists_completion` — tokens that are accepted can be gone on with;
* `parse_error_blames` — the failures of reading a text.

Design notes.  A text with accepted tokens is completed behind a newline, where no token of it can
go on: with a name, which is the node or the operator that may be missing, and with one bracket for
each that is open.
-/

namespace TextAdventure

/-! ### The line of a place -/

/-- A text is whole lines and then its last line. -/
theorem exists_append_lastLine (cs : List Char) :
    ∃ before, cs = before ++ lastLine cs ∧ WholeLines before ∧ '\n' ∉ lastLine cs := by
  induction cs using List.reverseRecOn with
  | nil => exact ⟨[], rfl, .inl rfl, List.not_mem_nil⟩
  | append_singleton cs c ih =>
    obtain ⟨before, hsplit, hbefore, hline⟩ := ih
    rw [lastLine_concat]
    by_cases hc : c = '\n'
    · rw [if_pos hc]
      exact ⟨cs ++ [c], (List.append_nil _).symm, .inr ⟨cs, by rw [hc]⟩, List.not_mem_nil⟩
    · rw [if_neg hc]
      refine ⟨before, ?_, hbefore, ?_⟩
      · rw [← List.append_assoc, ← hsplit]
      · simpa using ⟨hline, fun h => hc h.symm⟩

/-- A place in a text stands in a line, which goes on behind it up to a newline. -/
theorem exists_line (front back : List Char) :
    ∃ before right after, front = before ++ lastLine front ∧ back = right ++ after ∧
      WholeLines before ∧ '\n' ∉ lastLine front ++ right ∧ StartsLine after ∧
      before.count '\n' = front.count '\n' := by
  obtain ⟨before, hfront, hbefore, hleft⟩ := exists_append_lastLine front
  refine ⟨before, back.takeWhile (· ≠ '\n'), back.dropWhile (· ≠ '\n'), hfront,
    List.takeWhile_append_dropWhile.symm, hbefore, ?_, fun c hc => ?_, ?_⟩
  · rw [List.mem_append, not_or]
    exact ⟨hleft, fun h => by simpa using List.mem_takeWhile_imp h⟩
  · have hstop := List.head?_dropWhile_not (fun d => decide (d ≠ '\n')) back
    rw [Option.mem_def.mp hc] at hstop
    simpa using hstop
  · conv_rhs => rw [hfront]
    rw [List.count_append, List.count_eq_zero_of_not_mem hleft, Nat.add_zero]

theorem sourceLines_append {line after : List Char} (hline : '\n' ∉ line)
    (hafter : StartsLine after) : ∃ lines, sourceLines (line ++ after) = line :: lines := by
  induction line with
  | nil =>
    cases after with
    | nil => exact ⟨[], rfl⟩
    | cons c after =>
      have hc : c = '\n' := hafter c rfl
      exact ⟨sourceLines after, by rw [List.nil_append, sourceLines, if_pos hc]⟩
  | cons c line ih =>
    rw [List.mem_cons, not_or] at hline
    obtain ⟨hc, hrest⟩ := hline
    obtain ⟨lines, hlines⟩ := ih hrest
    exact ⟨lines, sourceLines_cons_of_ne (fun h => hc h.symm) hlines⟩

/-- The line between two newlines is the one with the number of newlines before it. -/
theorem lineText_between {before line after : List Char} (hbefore : WholeLines before)
    (hline : '\n' ∉ line) (hafter : StartsLine after) :
    lineText (before ++ (line ++ after)) (1 + before.count '\n') = String.ofList line := by
  obtain ⟨lines, hlines⟩ := sourceLines_append hline hafter
  have hcount : (Displacement.behind before).lines = before.count '\n' := rfl
  rw [Nat.add_comm, ← hcount, lineText_append hbefore.column_eq _ (Nat.le_refl 1), lineText, hlines]
  rfl

/-- A failure reports a mistake at a token: with the line and the column where the token begins,
and with the text of that line, from newline to newline. -/
inductive Failure.PointsAt (source : String) (fault : SyntaxFault) (t : Token) : Failure → Prop
  | intro {before left right after : List Char}
      (hsource : source.toList = before ++ (left ++ right ++ after)) (hbefore : WholeLines before)
      (hline : '\n' ∉ left ++ right) (hafter : StartsLine after)
      (hstart : t.span.start = (Displacement.behind (before ++ left)).bytes)
      (hnumber : t.span.line = 1 + before.count '\n') (hcolumn : t.span.column = 1 + left.length) :
      PointsAt source fault t
        (.ofFault (.unreadable fault t.span.line t.span.column (String.ofList (left ++ right))))

theorem Failure.PointsAt.exists_eq {source : String} {fault : SyntaxFault} {t : Token}
    {f : Failure} (h : f.PointsAt source fault t) :
    ∃ text, f = .ofFault (.unreadable fault t.span.line t.span.column text) := by
  cases h
  exact ⟨_, rfl⟩

theorem Failure.pointsAt {source : String} {t : Token} (ht : t ∈ tokenize source) {e : SyntaxError}
    (he : e.span = t.span) : PointsAt source e.fault t (ofSyntaxError source e) := by
  obtain ⟨earlier, later, hsplit⟩ := List.append_of_mem ht
  obtain ⟨front, gap, after, hsource, -, -, hspan, -, -⟩ := tokenize_split hsplit
  rw [← List.append_assoc] at hsource
  obtain ⟨before, right, rest, hfront, hback, hbefore, hline, hrest, hcount⟩ :=
    exists_line (front ++ gap) (t.text ++ after)
  have htext : source.toList = before ++ (lastLine (front ++ gap) ++ right ++ rest) := by
    rw [List.append_assoc, ← hback, ← List.append_assoc, ← hfront]
    exact hsource
  have hstart : t.span.start = (Displacement.behind (before ++ lastLine (front ++ gap))).bytes := by
    rw [hspan, ← hfront, ← Position.advance_start_offset]
    rfl
  have hnumber : t.span.line = 1 + before.count '\n' := by
    rw [hspan, hcount]
    exact Position.advance_start_line _
  have hcolumn : t.span.column = 1 + (lastLine (front ++ gap)).length := by
    rw [hspan]
    exact Position.advance_start_column _
  have hreported := lineText_between hbefore hline hrest
  rw [← htext, ← hnumber] at hreported
  rw [ofSyntaxError, he, hreported]
  exact .intro htext hbefore hline hrest hstart hnumber hcolumn

/-! ### Mistakes are at tokens -/

section Collected

variable {r : Reader} {errors : List SyntaxError} {e : SyntaxError} {t : Token} {ts : List Token}

/-- Where a mistake is: it is known already, or where something open begins, or at a token. -/
def IsPlaced (r : Reader) (errors : List SyntaxError) (ts : List Token) (e : SyntaxError) : Prop :=
  e ∈ errors ∨ e.span ∈ r.openSpans ∨ ∃ t ∈ ts, e.span = t.span

theorem IsPlaced.cons (h : IsPlaced r errors ts e) : IsPlaced r errors (t :: ts) e := by
  rcases h with hknown | hopen | ⟨u, hu, hspan⟩
  · exact .inl hknown
  · exact .inr (.inl hopen)
  · exact .inr (.inr ⟨u, List.mem_cons_of_mem _ hu, hspan⟩)

theorem IsPlaced.of_accept {policy : Reader.EmptyForms} {next : Reader}
    (hnext : r.accept policy t = .ok next) (h : IsPlaced next errors ts e) :
    IsPlaced r errors (t :: ts) e := by
  rcases h with hknown | hopen | ⟨u, hu, hspan⟩
  · exact .inl hknown
  · rcases Reader.openSpans_accept hnext hopen with hold | hnew
    · exact .inr (.inl hold)
    · exact .inr (.inr ⟨t, List.mem_cons_self, hnew⟩)
  · exact .inr (.inr ⟨u, List.mem_cons_of_mem _ hu, hspan⟩)

/-- A mistake that is new is where a token is refused. -/
theorem IsPlaced.of_refused {policy : Reader.EmptyForms} {e' : SyntaxError} {after : Reader}
    (he' : r.accept policy t = .error e') (hafter : ∀ s ∈ after.openSpans, s = t.span)
    (h : IsPlaced after (e' :: errors) ts e) : IsPlaced r errors (t :: ts) e := by
  rcases h with hknown | hopen | ⟨u, hu, hspan⟩
  · rcases List.mem_cons.mp hknown with rfl | hknown
    · rcases Reader.span_of_accept_eq_error he' with hspan | hopen
      · exact .inr (.inr ⟨t, List.mem_cons_self, hspan⟩)
      · exact .inr (.inl hopen)
    · exact .inl hknown
  · exact .inr (.inr ⟨t, List.mem_cons_self, hafter _ hopen⟩)
  · exact .inr (.inr ⟨u, List.mem_cons_of_mem _ hu, hspan⟩)

theorem isPlaced_of_mem_readRecovering {skipping : Bool}
    (h : e ∈ (readRecovering r skipping errors ts).2) : IsPlaced r errors ts e := by
  fun_induction readRecovering r skipping errors ts with
  | case1 => exact .inl (List.mem_reverse.mp h)
  | case2 => exact .inl (List.mem_reverse.mp h)
  | case3 r skipping errors t ts hend hskip ih => exact (ih h).cons
  | case4 r skipping errors t ts hend hskip next hnext ih => exact (ih h).of_accept hnext
  | case5 r skipping errors t ts hend hskip e' he' hstart ih =>
    -- reading goes on at this token, which is then open
    refine (ih h).of_refused he' ?_
    exact fun s hs => List.mem_singleton.mp hs
  | case6 r skipping errors t ts hend hskip e' he' hstart ih =>
    refine (ih h).of_refused he' ?_
    intro s hs
    cases hs

end Collected

/-! ### What is open -/

theorem significant_append (ts us : List Token) :
    significant (ts ++ us) = significant ts ++ significant us := by
  rw [significant, List.map_append, List.filter_append, significant, significant]

theorem significant_cons_of_eq {t : Token} {l : Lexeme} (ht : t.lexeme = l)
    (hl : l.isComment = false) (ts : List Token) : significant (t :: ts) = l :: significant ts := by
  rw [significant_cons, ht, hl]
  rfl

/-- A token that is all of a node is no comment. -/
theorem significant_singleton {t : Token} {node : Node} (h : node.lexemes = [t.lexeme]) :
    significant [t] = node.lexemes := by
  rw [significant_cons_of_eq rfl (node.isComment_of_mem_lexemes t.lexeme (by rw [h]; simp)), h]
  rfl

namespace Reader

/-- Tokens leave constructs open, given innermost first: the innermost begins with one of the
tokens, behind which stands what it holds, and the tokens before that leave the others open. -/
inductive LeavesOpen : List Opened → List Token → Prop
  | nil (ts : List Token) : LeavesOpen [] ts
  | cons {construct : Opened} {rest : List Opened} {outer inside : List Token} {t : Token}
      (houter : LeavesOpen rest outer) (hstart : t.span = construct.start)
      (hholds : t.lexeme :: significant inside = openedLexemes construct) :
      LeavesOpen (construct :: rest) (outer ++ t :: inside)

/-- The tokens behind which reading is in a state.  A `<` whose operator has not come is the last
of them, comments apart. -/
inductive Follows : Reader → List Token → Prop
  | ready {opened : List Opened} {nodes : List Node} {ts : List Token}
      (hopen : LeavesOpen opened ts) : Follows ⟨none, opened, nodes⟩ ts
  | angle {opened : List Opened} {nodes : List Node} {outer inside : List Token} {t : Token}
      (houter : LeavesOpen opened outer) (ht : t.lexeme = .openForm)
      (hinside : significant inside = []) :
      Follows ⟨some t.span, opened, nodes⟩ (outer ++ t :: inside)

theorem LeavesOpen.append {opened : List Opened} {ts us : List Token} (h : LeavesOpen opened ts)
    (hus : significant us = []) : LeavesOpen opened (ts ++ us) := by
  cases h with
  | nil => exact .nil _
  | cons houter hstart hholds =>
    rw [List.append_assoc, List.cons_append]
    refine .cons houter hstart ?_
    rw [significant_append, hus, List.append_nil, hholds]

/-- The token with which the innermost construct begins, and what stands behind it. -/
theorem LeavesOpen.exists_innermost {construct : Opened} {rest : List Opened} {ts : List Token}
    {l : Lexeme} {ls : List Lexeme} (h : LeavesOpen (construct :: rest) ts)
    (hconstruct : openedLexemes construct = l :: ls) :
    ∃ outer t inside, ts = outer ++ t :: inside ∧ t.span = construct.start ∧ t.lexeme = l ∧
      significant inside = ls := by
  cases h with
  | cons houter hstart hholds =>
    obtain ⟨ht, hinside⟩ := List.cons.inj (hholds.trans hconstruct)
    exact ⟨_, _, _, rfl, hstart, ht, hinside⟩

/-- Tokens with the lexemes of a complete node go into the innermost construct. -/
theorem LeavesOpen.attach {opened : List Opened} {ts run : List Token} {node : Node}
    (h : LeavesOpen opened ts) (hrun : significant run = node.lexemes) (nodes : List Node) :
    Follows (attach node nodes opened) (ts ++ run) := by
  induction h generalizing node run with
  | nil => exact .ready (.nil _)
  | @cons construct rest outer inside t houter hstart hholds ih =>
    cases construct with
    | form start operator args =>
      rw [List.append_assoc, List.cons_append]
      refine .ready (.cons houter hstart ?_)
      rw [significant_append, hrun, ← List.cons_append, hholds, openedLexemes, openedLexemes,
        Node.lexemesAll_reverse_cons]
      rfl
    | list start items =>
      rw [List.append_assoc, List.cons_append]
      refine .ready (.cons houter hstart ?_)
      rw [significant_append, hrun, ← List.cons_append, hholds, openedLexemes, openedLexemes,
        Node.lexemesAll_reverse_cons]
      rfl
    | marker start mark =>
      -- the marker is complete with the node, so the node with the marker goes further out
      obtain ⟨ht, hinside⟩ := List.cons.inj hholds
      rw [List.append_assoc, Reader.attach]
      refine ih ?_
      rw [List.cons_append, significant_cons_of_eq ht rfl, significant_append, hinside, hrun,
        Node.lexemes]
      rfl

/-- The token that ends the innermost construct completes a node. -/
theorem LeavesOpen.close {construct : Opened} {rest : List Opened} {ts : List Token} {u : Token}
    {node : Node} (h : LeavesOpen (construct :: rest) ts)
    (hnode : openedLexemes construct ++ [u.lexeme] = node.lexemes) (nodes : List Node) :
    Follows (Reader.attach node nodes rest) (ts ++ [u]) := by
  cases h with
  | @cons _ _ outer inside t houter hstart hholds =>
    rw [List.append_assoc]
    refine houter.attach ?_ nodes
    have hword : t.lexeme :: significant inside ++ [u.lexeme] = node.lexemes := by
      rw [hholds, hnode]
    -- the lexemes of a node are no comments
    have hplain : ∀ v : Token, v.lexeme ∈ node.lexemes → v.lexeme.isComment = false :=
      fun v hv => node.isComment_of_mem_lexemes v.lexeme hv
    have ht := hplain t (by rw [← hword]; simp)
    have hu := hplain u (by rw [← hword]; simp)
    rw [List.cons_append, significant_cons_of_eq rfl ht, significant_append,
      significant_cons_of_eq rfl hu, ← hword]
    rfl

theorem follows_initial : Follows initial [] := .ready (.nil [])

theorem Follows.append {r : Reader} {ts us : List Token} (h : Follows r ts)
    (hus : significant us = []) : Follows r (ts ++ us) := by
  cases h with
  | ready hopen => exact .ready (hopen.append hus)
  | angle houter ht hinside =>
    rw [List.append_assoc, List.cons_append]
    exact .angle houter ht (by rw [significant_append, hinside, hus]; rfl)

/-- A token that is accepted keeps what is known of the tokens before. -/
theorem Follows.accept {policy : EmptyForms} {r r' : Reader} {ts : List Token} {u : Token}
    (hts : Follows r ts) (h : r.accept policy u = .ok r') : Follows r' (ts ++ [u]) := by
  cases step_of_accept h with
  | comment hu => exact hts.append (by rw [significant_cons, if_pos hu]; rfl)
  | openForm hu =>
    cases hts with
    | ready hopen => exact .angle hopen hu rfl
  | openList hu =>
    cases hts with
    | ready hopen => exact .ready (.cons hopen rfl (by rw [hu]; rfl))
  | marker hu =>
    cases hts with
    | ready hopen => exact .ready (.cons hopen rfl (by rw [hu]; rfl))
  | operator hu =>
    cases hts with
    | angle houter ht hinside =>
      rw [List.append_assoc, List.cons_append]
      refine .ready (.cons houter rfl ?_)
      rw [ht, significant_append, hinside, significant_cons_of_eq hu rfl]
      rfl
  | empty hu =>
    cases hts with
    | angle houter ht hinside =>
      rw [List.append_assoc, List.cons_append]
      refine houter.attach ?_ _
      rw [significant_cons_of_eq ht rfl, significant_append, hinside,
        significant_cons_of_eq hu rfl, Node.lexemes]
      rfl
  | close hu hnode hform =>
    cases hts with
    | ready hopen => exact hopen.close hnode.symm _
  | leaf hu hnode hform =>
    cases hts with
    | ready hopen => exact hopen.attach (significant_singleton hnode) _

theorem Follows.acceptAll {policy : EmptyForms} {r r' : Reader} {ts us : List Token}
    (hts : Follows r ts) (h : r.acceptAll policy us = .ok r') : Follows r' (ts ++ us) := by
  induction us generalizing r ts with
  | nil =>
    cases h
    rwa [List.append_nil]
  | cons u us ih =>
    obtain ⟨next, hnext, hrest⟩ := acceptAll_cons_eq_ok h
    have hall := ih (hts.accept hnext) hrest
    rwa [List.append_assoc, List.singleton_append] at hall

/-! ### The token that is blamed -/

end Reader

/-- What a text ends with where it ends too early: an opening bracket or a marker, and behind it
nothing but what belongs to it and is complete.  So it is what was opened last and is open. -/
inductive LeftOpen : SyntaxFault → Lexeme → List Lexeme → Prop
  | bare : LeftOpen .unterminatedForm .openForm []
  | form (operator : String) (args : List Node) :
      LeftOpen .unterminatedForm .openForm (.atom operator :: Node.lexemesAll args)
  | list (items : List Node) : LeftOpen .unterminatedList .openList (Node.lexemesAll items)
  | marker (mark : Marker) : LeftOpen (.missingOperand mark) (.marker mark) []

namespace Reader

/-- A mistake is blamed on the token that is refused, or on an earlier one; then nothing can be open
there but an empty form, or the text ends and this one was opened last. -/
theorem Follows.blamed {policy : EmptyForms} {r : Reader} {ts : List Token} {u : Token}
    {e : SyntaxError} (hts : Follows r ts) (h : r.accept policy u = .error e) :
    (e.span = u.span ∧ e.fault.isUnfinished = false) ∨
    ∃ outer t inside, ts = outer ++ t :: inside ∧ e.span = t.span ∧
      (e.fault.isUnfinished = true →
        u.lexeme = .endOfInput ∧ LeftOpen e.fault t.lexeme (significant inside)) := by
  cases refusal_of_accept h with
  | here hfault => exact .inl ⟨rfl, hfault⟩
  | emptyForm =>
    cases hts with
    | angle => exact .inr ⟨_, _, _, rfl, rfl, fun h => absurd h Bool.false_ne_true⟩
  | angle hu =>
    cases hts with
    | angle houter ht hinside =>
      refine .inr ⟨_, _, _, rfl, rfl, fun _ => ⟨hu, ?_⟩⟩
      rw [ht, hinside]
      exact .bare
  | @form start operator args rest nodes hu =>
    cases hts with
    | ready hopen =>
      obtain ⟨outer, t, inside, rfl, hstart, ht, hinside⟩ := hopen.exists_innermost rfl
      refine .inr ⟨outer, t, inside, rfl, hstart.symm, fun _ => ⟨hu, ?_⟩⟩
      rw [ht, hinside]
      exact .form operator args.reverse
  | @list start items rest nodes hu =>
    cases hts with
    | ready hopen =>
      obtain ⟨outer, t, inside, rfl, hstart, ht, hinside⟩ := hopen.exists_innermost rfl
      refine .inr ⟨outer, t, inside, rfl, hstart.symm, fun _ => ⟨hu, ?_⟩⟩
      rw [ht, hinside]
      exact .list items.reverse
  | @marker start mark rest nodes hu =>
    cases hts with
    | ready hopen =>
      obtain ⟨outer, t, inside, rfl, hstart, ht, hinside⟩ := hopen.exists_innermost rfl
      refine .inr ⟨outer, t, inside, rfl, hstart.symm, fun _ => ⟨hu, ?_⟩⟩
      rw [ht, hinside]
      exact .marker mark

theorem exists_acceptAll_of_append {policy : EmptyForms} {r r' : Reader} {ts us : List Token}
    (h : r.acceptAll policy (ts ++ us) = .ok r') :
    ∃ mid, r.acceptAll policy ts = .ok mid ∧ mid.acceptAll policy us = .ok r' := by
  induction ts generalizing r with
  | nil => exact ⟨r, rfl, h⟩
  | cons t ts ih =>
    obtain ⟨next, hnext, hrest⟩ := acceptAll_cons_eq_ok h
    obtain ⟨mid, hmid, hback⟩ := ih hrest
    exact ⟨mid, (acceptAll_cons_of_ok hnext ts).trans hmid, hback⟩

/-- Where reading a text stops, one token is blamed.  The tokens before it are accepted, and where
the text ends too early, it was opened last. -/
theorem exists_blamed {source : String} {policy : EmptyForms} {passed rest : List Token} {u : Token}
    {r : Reader} {e : SyntaxError} (htokens : tokenize source = passed ++ u :: rest)
    (hpassed : initial.acceptAll policy passed = .ok r) (hrefused : r.accept policy u = .error e) :
    ∃ earlier t later r₀, tokenize source = earlier ++ t :: later ∧ e.span = t.span ∧
      initial.acceptAll policy earlier = .ok r₀ ∧ r₀.nodes <:+ r.nodes ∧
      (e.fault.isUnfinished = true → ∃ inside last, later = inside ++ [last] ∧
        last.lexeme = .endOfInput ∧ LeftOpen e.fault t.lexeme (significant inside)) := by
  have hfollows := follows_initial.acceptAll hpassed
  rw [List.nil_append] at hfollows
  rcases hfollows.blamed hrefused with ⟨hspan, hfinished⟩ | ⟨outer, t, inside, rfl, hspan, hopen⟩
  · refine ⟨passed, u, rest, r, htokens, hspan, hpassed, List.suffix_refl _, fun hunfinished => ?_⟩
    rw [hfinished] at hunfinished
    cases hunfinished
  · obtain ⟨r₀, houter, hback⟩ := exists_acceptAll_of_append hpassed
    refine ⟨outer, t, inside ++ u :: rest, r₀, ?_, hspan, houter, nodes_suffix_acceptAll hback, ?_⟩
    · rw [htokens, List.append_assoc, List.cons_append]
    · intro hunfinished
      obtain ⟨hu, hleft⟩ := hopen hunfinished
      -- nothing stands behind the end of the text
      obtain ⟨-, -, -, -, -, -, -, -, hother⟩ := tokenize_split htokens
      have hnone : rest = [] := by
        by_contra hrest
        exact (hother hrest).1 hu
      exact ⟨inside, u, by rw [hnone], hu, hleft⟩

end Reader

/-! ### Going on with accepted tokens -/

/-- The lexemes of a text whose first tokens are known. -/
theorem sourceLexemes_of_tokenize {text : String} {earlier : List Token} {p : Position}
    {rest : List Char} (h : tokenize text = earlier ++ tokensFrom p rest)
    (hearlier : ∀ t ∈ earlier, t.lexeme ≠ .endOfInput) :
    sourceLexemes text = significant earlier ++ (lexemesOf rest).filter (! ·.isComment) := by
  have hbefore : ∀ l ∈ earlier.map Token.lexeme, decide (l ≠ Lexeme.endOfInput) = true := by
    simpa using hearlier
  rw [sourceLexemes, h, List.map_append, List.takeWhile_append_of_pos hbefore, List.filter_append,
    map_lexeme_tokensFrom p .start]
  rfl

namespace Reader

/-- The brackets that close what is open, innermost first. -/
def closers : List Opened → List Char
  | [] => []
  | .form _ _ _ :: rest => '>' :: closers rest
  | .list _ _ :: rest => ')' :: closers rest
  | .marker _ _ :: rest => closers rest

/-- A node in the innermost construct, and the brackets for all that is open, make one node. -/
theorem exists_closed (opened : List Opened) {node : Node} (hnode : node.isEmptyForm = false) :
    ∃ top : Node, top.isEmptyForm = false ∧
      openedWord opened ++ (node.lexemes ++ lexemesOf (closers opened)) = top.lexemes := by
  induction opened generalizing node with
  | nil => exact ⟨node, hnode, by rw [openedWord, closers, lexemesOf_nil]; simp⟩
  | cons construct rest ih =>
    cases construct with
    | form start operator args =>
      obtain ⟨top, htop, hlexemes⟩ := @ih (.form operator (args.reverse ++ [node]) start) rfl
      refine ⟨top, htop, ?_⟩
      rw [← hlexemes, openedWord, openedLexemes, closers,
        lexemesOf_single (by decide) (fun _ => rfl), Node.lexemes, Node.lexemesAll_append]
      simp [Node.lexemesAll]
    | list start items =>
      obtain ⟨top, htop, hlexemes⟩ := @ih (.list (items.reverse ++ [node]) start) rfl
      refine ⟨top, htop, ?_⟩
      rw [← hlexemes, openedWord, openedLexemes, closers,
        lexemesOf_single (by decide) (fun _ => rfl), Node.lexemes, Node.lexemesAll_append]
      simp [Node.lexemesAll]
    | marker start mark =>
      obtain ⟨top, htop, hlexemes⟩ := @ih (.marked mark node start) rfl
      refine ⟨top, htop, ?_⟩
      rw [← hlexemes, openedWord, openedLexemes, closers, Node.lexemes]
      simp

theorem endsWord_closers (opened : List Opened) : EndsWord (closers opened) := by
  induction opened with
  | nil => exact endsWord_nil
  | cons construct rest ih =>
    cases construct with
    | form => exact endsWord_cons (by decide) _
    | list => exact endsWord_cons (by decide) _
    | marker => exact ih

/-- A text that completes what is read in a state: a name, which is the operator of a form where a
`<` has just been read, and then the brackets that are missing. -/
def completion (r : Reader) : List Char :=
  match r.angle with
  | some _ => 'a' :: '>' :: closers r.opened
  | none => 'a' :: closers r.opened

theorem exists_completed (r : Reader) :
    ∃ top : Node, top.isEmptyForm = false ∧
      r.word ++ lexemesOf (completion r) = Node.lexemesAll (r.nodes.reverse ++ [top]) := by
  obtain ⟨angle, opened, nodes⟩ := r
  have hname : ∀ {rest : List Char}, EndsWord rest →
      lexemesOf ('a' :: rest) = .atom "a" :: lexemesOf rest :=
    fun hrest => @lexemesOf_word 'a' [] _ (by decide) (by simp) hrest
  have hwhole : ∀ top : Node, Node.lexemesAll (nodes.reverse ++ [top]) =
      Node.lexemesAll nodes.reverse ++ top.lexemes := by
    intro top
    rw [Node.lexemesAll_append, Node.lexemesAll, Node.lexemesAll, List.append_nil]
  cases angle with
  | some start =>
    obtain ⟨top, htop, hlexemes⟩ := @exists_closed opened (.form "a" [] start) rfl
    refine ⟨top, htop, ?_⟩
    rw [hwhole, ← hlexemes, word, completion, hname (endsWord_cons (by decide) _),
      lexemesOf_single (by decide) (fun _ => rfl), Node.lexemes]
    simp [Node.lexemesAll]
  | none =>
    obtain ⟨top, htop, hlexemes⟩ := @exists_closed opened (.atom "a" default) rfl
    refine ⟨top, htop, ?_⟩
    rw [hwhole, ← hlexemes, word, completion, hname (endsWord_closers opened), Node.lexemes]
    simp

/-- Tokens of a text that are accepted are the first tokens of a text that is complete: its lexemes
are those of the nodes read so far and of one more. -/
theorem exists_completion {source : String} {policy : EmptyForms} {earlier later : List Token}
    {r : Reader} (htokens : tokenize source = earlier ++ later) (hlater : later ≠ [])
    (haccepted : initial.acceptAll policy earlier = .ok r) :
    ∃ text more top, tokenize text = earlier ++ more ∧ top.isEmptyForm = false ∧
      sourceLexemes text = Node.lexemesAll (r.nodes.reverse ++ [top]) := by
  obtain ⟨covered, -, -, hcovered, -⟩ := tokensFrom_covered htokens hlater
  obtain ⟨top, htop, hword⟩ := exists_completed r
  have hends : ∀ t ∈ earlier, t.lexeme ≠ .endOfInput := fun t ht =>
    lexeme_ne_endOfInput_of_tokensFrom_eq hcovered ht
  have hformed : ∀ t ∈ tokensFrom .start covered, ∀ fault, t.lexeme ≠ .malformed fault := by
    intro t ht fault
    rw [hcovered] at ht
    rcases List.mem_append.mp ht with ht | ht
    · exact lexeme_ne_malformed haccepted t ht fault
    · rw [List.mem_singleton.mp ht]
      intro hfault
      cases hfault
  have hline : StartsLine ('\n' :: completion r) := by
    intro c hc
    cases hc
    rfl
  obtain ⟨body, hbody, happend⟩ := tokensFrom_append (.inr hline) hformed
  obtain ⟨rfl, -⟩ := List.append_singleton_inj.mp (hcovered.symm.trans hbody)
  have htext := (tokenize_ofList _).trans happend
  refine ⟨_, _, top, htext, htop, ?_⟩
  have hread := word_acceptAll haccepted
  have hlexemes := lexemesOf_blank (by decide : isBlank '\n' = true) (completion r)
  -- none of the lexemes that are put in is a comment, for they are lexemes of a node
  have hnone : (lexemesOf (completion r)).filter (! ·.isComment) = lexemesOf (completion r) := by
    rw [List.filter_eq_self]
    intro l hl
    have hmem : l ∈ Node.lexemesAll (r.nodes.reverse ++ [top]) := by
      rw [← hword]
      exact List.mem_append_right _ hl
    rw [Node.isComment_of_mem_lexemesAll _ l hmem]
    rfl
  rw [sourceLexemes_of_tokenize htext hends, hlexemes, hnone, ← hword, hread]
  rfl

end Reader

/-! ### Reading up to the first node -/

/-- Reading the first node fails at the first token that is refused, and no node is complete before
it. -/
theorem exists_of_readFirst_eq_error {r : Reader} {ts : List Token} {e : SyntaxError}
    (h : readFirst r ts = .error e) (hend : ∃ last ∈ ts, last.lexeme = .endOfInput)
    (hr : r.nodes = []) :
    ∃ passed t rest r', ts = passed ++ t :: rest ∧ r.acceptAll .allowed passed = .ok r' ∧
      r'.nodes = [] ∧ r'.accept .allowed t = .error e := by
  induction ts generalizing r with
  | nil =>
    obtain ⟨last, hlast, -⟩ := hend
    cases hlast
  | cons t ts ih =>
    rw [readFirst] at h
    cases haccept : r.accept .allowed t with
    | error e' =>
      rw [haccept] at h
      cases h
      exact ⟨[], t, ts, r, rfl, rfl, hr, haccept⟩
    | ok next =>
      rw [haccept] at h
      dsimp only at h
      split at h
      · cases h
      rename_i hnodes
      -- the end of the text is not accepted, so it is still to come
      have hend' : ∃ last ∈ ts, last.lexeme = .endOfInput := by
        obtain ⟨last, hlast, hlexeme⟩ := hend
        rcases List.mem_cons.mp hlast with rfl | hlast
        · exact absurd haccept (Reader.accept_ne_ok_of_endOfInput hlexeme next)
        · exact ⟨last, hlast, hlexeme⟩
      obtain ⟨passed, u, rest, r', rfl, hpassed, hnone, hrefused⟩ := ih h hend' hnodes
      exact ⟨t :: passed, u, rest, r', rfl, (Reader.acceptAll_cons_of_ok haccept _).trans hpassed,
        hnone, hrefused⟩

/-! ### The failures of reading -/

/-- A failure of reading a text blames one of its tokens, given with those before and behind it.
Where the text ends too early, the token opens something, and nothing that is opened behind it is
open at the end. -/
structure Blames (source : String) (f : Failure) (fault : SyntaxFault) (earlier : List Token)
    (t : Token) (later : List Token) : Prop where
  tokens : tokenize source = earlier ++ t :: later
  pointsAt : f.PointsAt source fault t
  openedLast : fault.isUnfinished = true → ∃ inside last, later = inside ++ [last] ∧
    last.lexeme = .endOfInput ∧ LeftOpen fault t.lexeme (significant inside)

theorem exists_blames_of_parse {source : String} {f : Failure} (h : parse source = .error f) :
    ∃ fault earlier t later, Blames source f fault earlier t later ∧
      ∃ text nodes more, parse text = .ok nodes ∧ tokenize text = earlier ++ more := by
  cases hnodes : parseNodes source with
  | ok nodes =>
    rw [parse, hnodes] at h
    cases h
  | error e =>
    rw [parse, hnodes] at h
    cases h
    obtain ⟨passed, u, rest, r, htokens, hpassed, -, hrefused⟩ :=
      exists_of_readNodes_eq_error hnodes
    obtain ⟨earlier, t, later, r₀, hsplit, hspan, haccepted, -, hopen⟩ :=
      Reader.exists_blamed htokens hpassed hrefused
    have hmem : t ∈ tokenize source := by
      rw [hsplit]
      simp
    refine ⟨e.fault, earlier, t, later, ⟨hsplit, Failure.pointsAt hmem hspan, hopen⟩, ?_⟩
    obtain ⟨text, more, top, htext, htop, hlexemes⟩ :=
      Reader.exists_completion hsplit (List.cons_ne_nil _ _) haccepted
    have hforms : ∀ node ∈ r₀.nodes.reverse ++ [top], node.isEmptyForm = false := by
      intro node hnode
      rcases List.mem_append.mp hnode with hnode | hnode
      · exact Reader.noEmptyForm_acceptAll haccepted
          (fun _ h => absurd h List.not_mem_nil) node (List.mem_reverse.mp hnode)
      · rw [List.mem_singleton.mp hnode, htop]
    obtain ⟨read, hread, -⟩ := (exists_parse_iff text _).mpr ⟨hlexemes.symm, hforms⟩
    exact ⟨text, read, more, hread, htext⟩

theorem exists_blames_of_parseOne {source : String} {f : Failure}
    (h : parseOne source = .error f) :
    ∃ fault earlier t later, Blames source f fault earlier t later ∧
      ∃ text node more, parseOne text = .ok node ∧ sourceLexemes text = node.lexemes ∧
        tokenize text = earlier ++ more := by
  cases hnode : parseFirst source with
  | ok node =>
    rw [parseOne, hnode] at h
    cases h
  | error e =>
    rw [parseOne, hnode] at h
    cases h
    obtain ⟨body, last, htokens, hlast, -, -⟩ := tokenize_eq_append source
    have hend : ∃ last ∈ tokenize source, last.lexeme = .endOfInput :=
      ⟨last, by rw [htokens]; simp, hlast⟩
    obtain ⟨passed, u, rest, r, htokens, hpassed, hnone, hrefused⟩ :=
      exists_of_readFirst_eq_error hnode hend rfl
    obtain ⟨earlier, t, later, r₀, hsplit, hspan, haccepted, hnodes, hopen⟩ :=
      Reader.exists_blamed htokens hpassed hrefused
    have hmem : t ∈ tokenize source := by
      rw [hsplit]
      simp
    refine ⟨e.fault, earlier, t, later, ⟨hsplit, Failure.pointsAt hmem hspan, hopen⟩, ?_⟩
    obtain ⟨text, more, top, htext, -, hlexemes⟩ :=
      Reader.exists_completion hsplit (List.cons_ne_nil _ _) haccepted
    rw [hnone, List.suffix_nil] at hnodes
    have hone : sourceLexemes text = top.lexemes := by
      rw [hlexemes, hnodes]
      exact List.append_nil _
    obtain ⟨read, hread, hsame⟩ := (exists_parseOne_iff text top).mpr (by rw [hone])
    exact ⟨text, read, more, hread, hone.trans hsame.lexemes_eq.symm, htext⟩

/-- A failure of reading points at a token of the text, its end included: it has the line and the
column where this token begins, and this line of the text, from newline to newline.  Where reading
stops with it, the text can be gone on with behind the tokens before this one, so that it is read.
And where the text ends too early, this token is what was opened last and is still open.  In a text
of fewer than `2 ^ 32 - 1` characters the line and the column of every token fit into 32 bits. -/
theorem parse_error_blames (source : String) :
    (∀ f, parse source = .error f ∨ parseOne source = .error f ∨ f ∈ (parseRecovering source).2 →
      ∃ fault, ∃ t ∈ tokenize source, f.PointsAt source fault t) ∧
    (source.length + 1 < UInt32.size → ∀ t ∈ tokenize source, t.span.Fits) ∧
    (∀ f, parse source = .error f → ∃ fault earlier t later,
      Blames source f fault earlier t later ∧
      ∃ text nodes more, parse text = .ok nodes ∧ tokenize text = earlier ++ more) ∧
    ∀ f, parseOne source = .error f → ∃ fault earlier t later,
      Blames source f fault earlier t later ∧
      ∃ text node more, parseOne text = .ok node ∧ sourceLexemes text = node.lexemes ∧
        tokenize text = earlier ++ more := by
  have hmem : ∀ {f fault earlier t later}, Blames source f fault earlier t later →
      ∃ fault, ∃ t ∈ tokenize source, f.PointsAt source fault t := by
    intro f fault earlier t later h
    refine ⟨fault, t, ?_, h.pointsAt⟩
    rw [h.tokens]
    simp
  refine ⟨?_, fun hsize t => token_fits hsize, fun f => exists_blames_of_parse,
    fun f => exists_blames_of_parseOne⟩
  rintro f (h | h | h)
  · obtain ⟨fault, earlier, t, later, hblames, -⟩ := exists_blames_of_parse h
    exact hmem hblames
  · obtain ⟨fault, earlier, t, later, hblames, -⟩ := exists_blames_of_parseOne h
    exact hmem hblames
  · obtain ⟨e, he, rfl⟩ := List.mem_map.mp h
    rcases isPlaced_of_mem_readRecovering he with hknown | hopen | ⟨t, ht, hspan⟩
    · cases hknown
    · cases hopen
    · exact ⟨e.fault, t, ht, Failure.pointsAt ht hspan⟩

/-- Of a form and a list that are open at the end, the list is blamed, with the line in which it
begins. -/
theorem parse_error_blames_list :
    ∃ f, parse "; é\n<A \"ö\" (B ; c\n 'C" = .error f ∧
      parseOne "; é\n<A \"ö\" (B ; c\n 'C" = .error f ∧
      (parseRecovering "; é\n<A \"ö\" (B ; c\n 'C").2 = [f] ∧
      f = .ofFault (.unreadable .unterminatedList 2 8 "<A \"ö\" (B ; c") ∧
      (∃ fault, ∃ t ∈ tokenize "; é\n<A \"ö\" (B ; c\n 'C",
        f.PointsAt "; é\n<A \"ö\" (B ; c\n 'C" fault t) ∧
      (∃ earlier t later, Blames "; é\n<A \"ö\" (B ; c\n 'C" f .unterminatedList earlier t later ∧
        (∃ inside last, later = inside ++ [last] ∧ last.lexeme = .endOfInput ∧
          LeftOpen .unterminatedList t.lexeme (significant inside)) ∧
        ∃ text nodes more, parse text = .ok nodes ∧ tokenize text = earlier ++ more) ∧
      ∃ fault earlier t later, Blames "; é\n<A \"ö\" (B ; c\n 'C" f fault earlier t later ∧
        ∃ text node more, parseOne text = .ok node ∧ sourceLexemes text = node.lexemes ∧
          tokenize text = earlier ++ more := by
  have hparse : parse "; é\n<A \"ö\" (B ; c\n 'C" =
      .error (.ofFault (.unreadable .unterminatedList 2 8 "<A \"ö\" (B ; c")) := by
    cbv
  have hparseOne : parseOne "; é\n<A \"ö\" (B ; c\n 'C" =
      .error (.ofFault (.unreadable .unterminatedList 2 8 "<A \"ö\" (B ; c")) := by
    cbv
  have hrecovering : (parseRecovering "; é\n<A \"ö\" (B ; c\n 'C").2 =
      [.ofFault (.unreadable .unterminatedList 2 8 "<A \"ö\" (B ; c")] := by
    cbv
  obtain ⟨hat, -, hall, hone⟩ := parse_error_blames "; é\n<A \"ö\" (B ; c\n 'C"
  obtain ⟨fault, earlier, t, later, hblames, hread⟩ := hall _ hparse
  obtain ⟨text, heq⟩ := hblames.pointsAt.exists_eq
  obtain rfl : SyntaxFault.unterminatedList = fault := by
    injection heq with hfault
    injection hfault
  exact ⟨_, hparse, hparseOne, hrecovering, rfl,
    hat _ (.inr (.inr (by rw [hrecovering]; exact List.mem_singleton_self _))),
    ⟨earlier, t, later, hblames, hblames.openedLast rfl, hread⟩, hone _ hparseOne⟩

end TextAdventure
