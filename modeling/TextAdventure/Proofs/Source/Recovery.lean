import TextAdventure.Proofs.Source.Bounds

/-!
Reading on behind mistakes.

Reading that goes on behind mistakes does what strict reading does up to the first mistake.  There
it passes over the text up to the next `<` that begins a line, and from there on it reads as if the
text began at that `<`, with all places moved by the text before it.

* `Stops` — where strict reading of a text stops, and with which mistake;
* `ResumesAt` — where reading goes on;
* `Stops.parseRecovering_eq_append` — what is read from a text: the nodes before the first mistake,
  that mistake, and what is read from where reading goes on, moved;
* `parseAllowingErrors_ordered` — mistakes are in the order of their places;
* `ResumesAfter` — where reading goes on behind a given number of mistakes;
* `parseRecovering_in_step` — how the two ways of reading a text go together.

Design notes.  The mistakes of a text are in order because each is at a token before the place
where reading goes on, and the mistakes of the rest are at or behind that place.
-/

namespace TextAdventure

/-! ### Up to the first mistake -/

section Accepted

variable {r next : Reader}

theorem readNodes_cons_of_ok {t : Token} (h : r.accept .refused t = .ok next) (ts : List Token) :
    readNodes r (t :: ts) = readNodes next ts := by
  have hend : t.lexeme ≠ .endOfInput := fun hend => Reader.accept_ne_ok_of_endOfInput hend _ h
  rw [readNodes, if_neg (by simp [hend]), h]

theorem readRecovering_cons_of_ok {t : Token} (h : r.accept .refused t = .ok next)
    (errors : List SyntaxError) (ts : List Token) :
    readRecovering r false errors (t :: ts) = readRecovering next false errors ts := by
  have hend : t.lexeme ≠ .endOfInput := fun hend => Reader.accept_ne_ok_of_endOfInput hend _ h
  rw [readRecovering, if_neg (by simp [hend]), if_neg (by simp), h]

theorem readRecovering_append_of_ok {ts : List Token} (h : r.acceptAll .refused ts = .ok next)
    (errors : List SyntaxError) (us : List Token) :
    readRecovering r false errors (ts ++ us) = readRecovering next false errors us := by
  induction ts generalizing r with
  | nil =>
    cases h
    rfl
  | cons t ts ih =>
    obtain ⟨mid, hmid, hrest⟩ := Reader.acceptAll_cons_eq_ok h
    rw [List.cons_append, readRecovering_cons_of_ok hmid, ih hrest]

end Accepted

/-- Without mistakes, the two ways of reading agree. -/
theorem readRecovering_of_readNodes_eq_ok {r : Reader} {ts : List Token} {nodes : List Node}
    (h : readNodes r ts = .ok nodes) (errors : List SyntaxError) :
    readRecovering r false errors ts = (nodes, errors.reverse) := by
  induction ts generalizing r with
  | nil =>
    cases h
    rfl
  | cons t ts ih =>
    by_cases hend : t.lexeme = .endOfInput ∧ r.isIdle = true
    · rw [readNodes, if_pos hend] at h
      cases h
      rw [readRecovering, if_pos ⟨hend.1, .inr hend.2⟩]
    · cases haccept : r.accept .refused t with
      | error e =>
        rw [readNodes, if_neg hend, haccept] at h
        cases h
      | ok next =>
        rw [readNodes_cons_of_ok haccept] at h
        rw [readRecovering_cons_of_ok haccept, ih h]

/-- Strict reading fails at the first token that is refused. -/
theorem exists_of_readNodes_eq_error {r : Reader} {ts : List Token} {e : SyntaxError}
    (h : readNodes r ts = .error e) :
    ∃ passed t rest r', ts = passed ++ t :: rest ∧ r.acceptAll .refused passed = .ok r' ∧
      ¬ (t.lexeme = .endOfInput ∧ r'.isIdle = true) ∧ r'.accept .refused t = .error e := by
  induction ts generalizing r with
  | nil => cases h
  | cons t ts ih =>
    by_cases hend : t.lexeme = .endOfInput ∧ r.isIdle = true
    · rw [readNodes, if_pos hend] at h
      cases h
    · cases haccept : r.accept .refused t with
      | error e' =>
        rw [readNodes, if_neg hend, haccept] at h
        cases h
        exact ⟨[], t, ts, r, rfl, rfl, hend, haccept⟩
      | ok next =>
        rw [readNodes_cons_of_ok haccept] at h
        obtain ⟨passed, u, rest, r', rfl, hpassed, hnot, hrefused⟩ := ih h
        refine ⟨t :: passed, u, rest, r', rfl, ?_, hnot, hrefused⟩
        rw [Reader.acceptAll_cons_of_ok haccept, hpassed]

/-! ### Behind a mistake -/

/-- Without a `<` that begins a line, the rest is passed over. -/
theorem readRecovering_skip {r : Reader} {errors : List SyntaxError} {ts : List Token}
    (h : ∀ t ∈ ts, t.startsLine = false) :
    readRecovering r true errors ts = (r.nodes.reverse, errors.reverse) := by
  induction ts with
  | nil => rfl
  | cons t ts ih =>
    rw [readRecovering]
    split
    · rfl
    · rw [if_pos (by simp [h t List.mem_cons_self])]
      exact ih fun u hu => h u (List.mem_cons_of_mem _ hu)

theorem Token.lexeme_of_startsLine {t : Token} (h : t.startsLine = true) :
    t.lexeme = .openForm ∧ t.span.column = 1 := by
  simpa [startsLine] using h

/-- A `<` that begins a line is the first token that is not passed over. -/
theorem readRecovering_skip_append {nodes : List Node} {errors : List SyntaxError}
    {skipped us : List Token} {u : Token}
    (hskipped : ∀ t ∈ skipped, t.startsLine = false ∧ t.lexeme ≠ .endOfInput)
    (hu : u.startsLine = true) :
    readRecovering ⟨none, [], nodes⟩ true errors (skipped ++ u :: us) =
      readRecovering ⟨none, [], nodes⟩ false errors (u :: us) := by
  induction skipped with
  | nil =>
    have hlexeme := (Token.lexeme_of_startsLine hu).1
    rw [List.nil_append, readRecovering, readRecovering]
    simp [hlexeme, hu]
  | cons t skipped ih =>
    obtain ⟨hstart, hend⟩ := hskipped t List.mem_cons_self
    rw [List.cons_append, readRecovering, if_neg (by simp [hend]), if_pos (by simp [hstart])]
    exact ih fun v hv => hskipped v (List.mem_cons_of_mem _ hv)

/-- A `<` that begins a line opens a form where nothing is open. -/
theorem Reader.accept_startsLine {u : Token} (hu : u.startsLine = true) (nodes : List Node) :
    accept .refused ⟨none, [], nodes⟩ u = .ok ⟨some u.span, [], nodes⟩ := by
  have hlexeme := (Token.lexeme_of_startsLine hu).1
  rw [accept_of_ready .refused rfl (by rw [hlexeme]; rfl), acceptNode, hlexeme]

theorem readRecovering_openForm {nodes : List Node} {errors : List SyntaxError} {u : Token}
    (hu : u.startsLine = true) (us : List Token) :
    readRecovering ⟨none, [], nodes⟩ false errors (u :: us) =
      readRecovering ⟨some u.span, [], nodes⟩ false errors us := by
  have hlexeme := (Token.lexeme_of_startsLine hu).1
  rw [readRecovering, if_neg (by simp [hlexeme]), if_neg (by simp), Reader.accept_startsLine hu]

section Refused

variable {r : Reader} {t : Token} {e : SyntaxError} {rest : List Token}
  (hend : ¬ (t.lexeme = .endOfInput ∧ r.isIdle = true))
  (hrefused : r.accept .refused t = .error e)

include hend hrefused

/-- A token that is refused, with no place behind it to go on at. -/
theorem readRecovering_of_refused (hleft : ∀ u ∈ t :: rest, u.startsLine = false)
    (errors : List SyntaxError) :
    readRecovering r false errors (t :: rest) = (r.nodes.reverse, (e :: errors).reverse) := by
  rw [readRecovering, if_neg (by simpa using hend), if_neg (by simp), hrefused]
  dsimp only
  rw [hleft t List.mem_cons_self, if_neg Bool.false_ne_true]
  exact readRecovering_skip fun u hu => hleft u (List.mem_cons_of_mem _ hu)

/-- A token that is refused, with a place to go on at: itself, or one behind it. -/
theorem readRecovering_of_refused_append {skipped us : List Token} {u : Token}
    (hsplit : t :: rest = skipped ++ u :: us)
    (hskipped : ∀ v ∈ skipped, v.startsLine = false ∧ v.lexeme ≠ .endOfInput)
    (hu : u.startsLine = true) (errors : List SyntaxError) :
    readRecovering r false errors (t :: rest) =
      readRecovering ⟨none, [], r.nodes⟩ false (e :: errors) (u :: us) := by
  rw [readRecovering, if_neg (by simpa using hend), if_neg (by simp), hrefused]
  dsimp only
  cases skipped with
  | nil =>
    -- the refused token is taken a second time, now where nothing is open
    obtain ⟨rfl, rfl⟩ := List.cons.inj hsplit
    rw [if_pos hu, readRecovering_openForm hu]
  | cons v skipped =>
    obtain ⟨rfl, rfl⟩ := List.cons.inj hsplit
    rw [(hskipped t List.mem_cons_self).1, if_neg Bool.false_ne_true]
    exact readRecovering_skip_append (fun v hv => hskipped v (List.mem_cons_of_mem _ hv)) hu

end Refused

/-! ### Where reading stops and goes on -/

/-- Reading a text strictly stops: the tokens up to some place are accepted, which completes the
nodes, and of the tokens that are left the first is refused. -/
inductive Stops (text : List Char) : List Node → SyntaxError → List Token → Prop
  | refused {passed rest : List Token} {t : Token} {r : Reader} {e : SyntaxError}
      (htokens : tokensFrom .start text = passed ++ t :: rest)
      (hpassed : Reader.initial.acceptAll .refused passed = .ok r)
      -- where nothing is open, the end of the text is no mistake
      (hend : ¬ (t.lexeme = .endOfInput ∧ r.isIdle = true))
      (hrefused : r.accept .refused t = .error e) : Stops text r.nodes.reverse e (t :: rest)

/-- Reading goes on at the next `<` that begins a line, among the tokens that are left: `gap` is the
text before it, and `rest` the text from there on, which has it and the tokens behind it. -/
structure ResumesAt (text : List Char) (left : List Token) (gap rest : List Char) : Prop where
  split : text = gap ++ rest
  progress : gap ≠ []
  next : ∃ skipped u us, left = skipped ++ u :: us ∧ (∀ t ∈ skipped, t.startsLine = false) ∧
    u.startsLine = true ∧ u.BeginsAt (Position.start.advance gap) ∧
    tokensFrom (Position.start.advance gap) rest = u :: us

theorem tokenize_ofList (text : List Char) :
    tokenize (String.ofList text) = tokensFrom .start text := by
  rw [tokenize, String.toList_ofList]

theorem exists_stops {text : List Char} {e : SyntaxError}
    (h : parseNodes (String.ofList text) = .error e) :
    ∃ completed left, Stops text completed e left := by
  rw [parseNodes, tokenize_ofList] at h
  obtain ⟨passed, t, rest, r, htokens, hpassed, hend, hrefused⟩ := exists_of_readNodes_eq_error h
  exact ⟨_, _, .refused htokens hpassed hend hrefused⟩

theorem ResumesAt.column_eq {text gap rest : List Char} {left : List Token}
    (h : ResumesAt text left gap rest) : (Position.start.advance gap).column = 1 := by
  obtain ⟨skipped, u, us, -, -, hu, ⟨q, hspan⟩, -⟩ := h.next
  have hcolumn := (Token.lexeme_of_startsLine hu).2
  rw [hspan] at hcolumn
  exact hcolumn

namespace Stops

variable {text : List Char} {completed : List Node} {e : SyntaxError} {left : List Token}

/-- A `<` that begins a line is a place to go on at, and some text lies before it. -/
theorem exists_resumesAt (h : Stops text completed e left)
    (hleft : ¬ ∀ t ∈ left, t.startsLine = false) : ∃ gap rest, ResumesAt text left gap rest := by
  obtain @⟨passed, rest, t, r, _, htokens, hpassed, -, hrefused⟩ := h
  cases hfind : (t :: rest).find? Token.startsLine with
  | none => exact absurd (by simpa using List.find?_eq_none.mp hfind) hleft
  | some u =>
    obtain ⟨hu, skipped, us, hsplit, hskipped⟩ := List.find?_eq_some_iff_append.mp hfind
    -- the reader refuses no `<` before it has taken a token
    have hbefore : passed ++ skipped ≠ [] := by
      intro hnil
      obtain ⟨rfl, rfl⟩ := List.append_eq_nil_iff.mp hnil
      obtain ⟨rfl, -⟩ := List.cons.inj hsplit
      cases hpassed
      rw [Reader.initial, Reader.accept_startsLine hu] at hrefused
      cases hrefused
    rw [hsplit, ← List.append_assoc] at htokens
    obtain ⟨gap, rest', htext, hrest, hbegins, hgap⟩ := tokensFrom_split htokens
    exact ⟨gap, rest', htext, hgap hbefore, skipped, u, us, hsplit, by simpa using hskipped, hu,
      hbegins, hrest⟩

/-- Nothing follows the first mistake where no `<` begins a line. -/
theorem parseAllowingErrors_eq (h : Stops text completed e left)
    (hleft : ∀ t ∈ left, t.startsLine = false) :
    parseAllowingErrors (String.ofList text) = (completed, [e]) := by
  obtain ⟨htokens, hpassed, hend, hrefused⟩ := h
  rw [parseAllowingErrors, tokenize_ofList, htokens, readRecovering_append_of_ok hpassed]
  exact readRecovering_of_refused hend hrefused hleft []

/-- What follows the first mistake is what is read from the place to go on at, moved. -/
theorem parseAllowingErrors_eq_append (h : Stops text completed e left) {gap rest : List Char}
    (hresumes : ResumesAt text left gap rest) :
    parseAllowingErrors (String.ofList text) =
      (completed ++ (parseAllowingErrors (String.ofList rest)).1.map (Node.moved (.behind gap)),
        e :: (parseAllowingErrors (String.ofList rest)).2.map
          (SyntaxError.moved (.behind gap))) := by
  obtain @⟨passed, _, t, r, _, htokens, hpassed, hend, hrefused⟩ := h
  obtain ⟨skipped, u, us, hsplit, hskipped, hu, -, hrest⟩ := hresumes.next
  have hpassable : ∀ v ∈ skipped, v.startsLine = false ∧ v.lexeme ≠ .endOfInput := by
    intro v hv
    have hwhole := htokens
    rw [hsplit, ← List.append_assoc] at hwhole
    exact ⟨hskipped v hv, lexeme_ne_endOfInput_of_tokensFrom_eq hwhole (List.mem_append_right _ hv)⟩
  rw [parseAllowingErrors, tokenize_ofList, htokens, readRecovering_append_of_ok hpassed,
    readRecovering_of_refused_append hend hrefused hsplit hpassable hu]
  -- from here on the tokens are those of the rest, moved, and the reader is as at the beginning
  have hmoved := readRecovering_moved (.behind gap) r.nodes [e] .initial false []
    (tokensFrom .start rest)
  rw [← tokensFrom_moved, ← Position.advance_start hresumes.column_eq, hrest] at hmoved
  rw [parseAllowingErrors, tokenize_ofList]
  exact hmoved

end Stops

/-! ### The order of mistakes -/

/-- A mistake is at a token, and at or before the one that is refused. -/
theorem Stops.exists_token {text : List Char} {completed : List Node} {e : SyntaxError}
    {left : List Token} (h : Stops text completed e left) :
    ∃ passed t rest, tokensFrom .start text = passed ++ t :: rest ∧ left = t :: rest ∧
      ∃ u ∈ passed ++ [t], e.span = u.span := by
  obtain @⟨passed, rest, t, r, _, htokens, hpassed, -, hrefused⟩ := h
  refine ⟨passed, t, rest, htokens, rfl, ?_⟩
  rcases Reader.span_of_accept_eq_error hrefused with hspan | hopen
  · exact ⟨t, by simp, hspan⟩
  · rcases Reader.openSpans_acceptAll hpassed hopen with hnone | ⟨u, hu, hspan⟩
    · cases hnone
    · exact ⟨u, List.mem_append_left _ hu, hspan⟩

theorem Stops.start_le {text : List Char} {completed : List Node} {e : SyntaxError}
    {left : List Token} (h : Stops text completed e left) :
    Position.start.place ≤ e.span.place := by
  obtain ⟨passed, t, rest, htokens, -, u, hu, hspan⟩ := h.exists_token
  rw [hspan]
  have hmem : u ∈ tokensFrom .start text := by
    rw [htokens]
    rcases List.mem_append.mp hu with hpassed | hlast
    · exact List.mem_append_left _ hpassed
    · rw [List.mem_singleton.mp hlast]
      simp
  exact place_le_of_mem_tokensFrom hmem

/-- A mistake is not behind the place where reading goes on. -/
theorem Stops.place_le {text gap rest : List Char} {completed : List Node} {e : SyntaxError}
    {left : List Token} (h : Stops text completed e left)
    (hresumes : ResumesAt text left gap rest) :
    e.span.place ≤ (Position.start.advance gap).place := by
  obtain ⟨passed, t, after, htokens, hleft, v, hv, hspan⟩ := h.exists_token
  obtain ⟨skipped, u, us, hsplit, -, -, hbegins, -⟩ := hresumes.next
  rw [hspan, ← hbegins.place_eq]
  rw [hleft] at hsplit
  cases skipped with
  | nil =>
    -- reading goes on at the refused token itself
    obtain ⟨rfl, rfl⟩ := List.cons.inj hsplit
    rcases List.mem_append.mp hv with hpassed | hlast
    · exact place_le_of_tokensFrom_eq htokens hpassed
    · rw [List.mem_singleton.mp hlast]
  | cons w skipped =>
    obtain ⟨rfl, rfl⟩ := List.cons.inj hsplit
    have hwhole : tokensFrom .start text = (passed ++ [t]) ++ skipped ++ u :: us := by
      rw [htokens]
      simp
    exact place_le_of_tokensFrom_eq hwhole (List.mem_append_left _ hv)

/-- No mistake is before the text, and none before an earlier one. -/
theorem parseAllowingErrors_ordered (text : List Char) :
    (∀ e ∈ (parseAllowingErrors (String.ofList text)).2, Position.start.place ≤ e.span.place) ∧
    (parseAllowingErrors (String.ofList text)).2.Pairwise fun e e' =>
      e.span.place ≤ e'.span.place := by
  induction hn : text.length using Nat.strongRecOn generalizing text with
  | ind n ih =>
    cases hparse : parseNodes (String.ofList text) with
    | ok nodes =>
      rw [parseAllowingErrors, readRecovering_of_readNodes_eq_ok hparse]
      exact ⟨nofun, .nil⟩
    | error e =>
      obtain ⟨completed, left, hstops⟩ := exists_stops hparse
      by_cases hleft : ∀ t ∈ left, t.startsLine = false
      · rw [hstops.parseAllowingErrors_eq hleft]
        refine ⟨fun e' he' => ?_, List.pairwise_singleton _ _⟩
        rw [List.mem_singleton.mp he']
        exact hstops.start_le
      obtain ⟨gap, rest, hresumes⟩ := hstops.exists_resumesAt hleft
      have hshorter : rest.length < n := by
        rw [← hn, hresumes.split, List.length_append]
        have := List.length_pos_iff.mpr hresumes.progress
        omega
      obtain ⟨hstart, hordered⟩ := ih rest.length hshorter rest rfl
      -- the mistakes of the rest are at or behind the place where reading goes on
      have hbehind : ∀ e' ∈ (parseAllowingErrors (String.ofList rest)).2,
          (Position.start.advance gap).place ≤ (e'.span.moved (.behind gap)).place := by
        intro e' he'
        rw [Position.advance_start hresumes.column_eq]
        exact Span.place_moved_le (hstart e' he')
      rw [hstops.parseAllowingErrors_eq_append hresumes]
      constructor
      · intro e' he'
        rcases List.mem_cons.mp he' with rfl | hrest
        · exact hstops.start_le
        · obtain ⟨e'', he'', rfl⟩ := List.mem_map.mp hrest
          exact (Position.place_le_advance _ gap).trans (hbehind e'' he'')
      · refine List.pairwise_cons.mpr ⟨fun e' he' => ?_, ?_⟩
        · obtain ⟨e'', he'', rfl⟩ := List.mem_map.mp he'
          exact (hstops.place_le hresumes).trans (hbehind e'' he'')
        · refine List.pairwise_map.mpr (hordered.imp fun hle => ?_)
          exact Span.moved_place_le hle

theorem Span.one_le_line {s : Span} (h : Position.start.place ≤ s.place) : 1 ≤ s.line := by
  rw [Position.place, Span.place, Prod.Lex.toLex_le_toLex] at h
  simp only [Position.start] at h
  omega

/-! ### Failures -/

/-- Where the mistake of a source text stands that a failure is about. -/
def Failure.place? (f : Failure) : Option (Nat ×ₗ Nat) :=
  match f.fault with
  | .unreadable _ line column _ => some (toLex (line, column))
  | _ => none

/-- The line and the column of a failure fit into 32 bits. -/
def Failure.Fits (f : Failure) : Prop :=
  ∀ place ∈ f.place?, (ofLex place).1 < UInt32.size ∧ (ofLex place).2 < UInt32.size

/-- In a text that is not too long the lines and columns of all that is read fit. -/
theorem parseRecovering_fits {source : String} (hsize : source.length + 1 < UInt32.size) :
    (∀ node, Node.Within (parseRecovering source).1 node → node.span.Fits) ∧
      ∀ f ∈ (parseRecovering source).2, f.Fits := by
  obtain ⟨hnodes, herrors⟩ := parseAllowingErrors_fits hsize
  refine ⟨hnodes, fun f hf => ?_⟩
  obtain ⟨e, he, rfl⟩ := List.mem_map.mp hf
  intro place hplace
  obtain rfl : toLex (e.span.line, e.span.column) = place := Option.some_inj.mp hplace
  exact herrors e he

/-- What is read from a text, moved. -/
def movedReading (d : Displacement) (reading : List Node × List Failure) :
    List Node × List Failure :=
  (reading.1.map (Node.moved d), reading.2.map (Failure.moved d))

theorem parseRecovering_eq (text : List Char) :
    parseRecovering (String.ofList text) =
      ((parseAllowingErrors (String.ofList text)).1,
        (parseAllowingErrors (String.ofList text)).2.map
          (Failure.ofSyntaxError (String.ofList text))) := rfl

/-- The mistakes of a text behind whole lines are reported with the same lines, further on. -/
theorem map_ofSyntaxError_moved {before : List Char}
    (hbefore : (Position.start.advance before).column = 1) (text : List Char) :
    (parseAllowingErrors (String.ofList text)).2.map
        (Failure.ofSyntaxError (String.ofList (before ++ text)) ∘
          SyntaxError.moved (.behind before)) =
      (parseAllowingErrors (String.ofList text)).2.map
        (Failure.moved (.behind before) ∘ Failure.ofSyntaxError (String.ofList text)) := by
  refine List.map_congr_left fun e he => ?_
  have hline := Span.one_le_line ((parseAllowingErrors_ordered text).1 e he)
  exact Failure.ofSyntaxError_moved hbefore text hline

theorem parseRecovering_of_parse_eq_ok {source : String} {nodes : List Node}
    (h : parse source = .ok nodes) : parseRecovering source = (nodes, []) := by
  rw [parse, mapError_eq_ok_iff] at h
  rw [parseRecovering, parseAllowingErrors, readRecovering_of_readNodes_eq_ok h]
  rfl

theorem exists_of_parse_eq_error {text : List Char} {f : Failure}
    (h : parse (String.ofList text) = .error f) :
    ∃ completed e left, Stops text completed e left ∧
      f = Failure.ofSyntaxError (String.ofList text) e := by
  rw [parse] at h
  cases hparse : parseNodes (String.ofList text) with
  | ok nodes =>
    rw [hparse] at h
    cases h
  | error e =>
    rw [hparse] at h
    cases h
    obtain ⟨completed, left, hstops⟩ := exists_stops hparse
    exact ⟨completed, e, left, hstops, rfl⟩

namespace Stops

variable {text : List Char} {completed : List Node} {e : SyntaxError} {left : List Token}

theorem parseRecovering_eq_singleton (h : Stops text completed e left)
    (hleft : ∀ t ∈ left, t.startsLine = false) :
    parseRecovering (String.ofList text) =
      (completed, [.ofSyntaxError (String.ofList text) e]) := by
  rw [parseRecovering_eq, h.parseAllowingErrors_eq hleft]
  rfl

theorem parseRecovering_eq_append (h : Stops text completed e left) {gap rest : List Char}
    (hresumes : ResumesAt text left gap rest) :
    parseRecovering (String.ofList text) =
      (completed ++ (movedReading (.behind gap) (parseRecovering (String.ofList rest))).1,
        .ofSyntaxError (String.ofList text) e ::
          (movedReading (.behind gap) (parseRecovering (String.ofList rest))).2) := by
  have hfailures := map_ofSyntaxError_moved hresumes.column_eq rest
  rw [← hresumes.split] at hfailures
  rw [parseRecovering_eq, h.parseAllowingErrors_eq_append hresumes, movedReading,
    parseRecovering_eq, List.map_cons, List.map_map, List.map_map, hfailures]

end Stops

/-! ### Behind each mistake -/

/-- Reading goes on at `text` behind the given number of mistakes; `pre` is the text before. -/
inductive ResumesAfter (source : List Char) : Nat → List Char → List Char → Prop
  | start : ResumesAfter source 0 [] source
  | next {n : Nat} {pre text gap rest : List Char} {completed : List Node} {e : SyntaxError}
      {left : List Token} (h : ResumesAfter source n pre text)
      (hstops : Stops text completed e left) (hresumes : ResumesAt text left gap rest) :
      ResumesAfter source (n + 1) (pre ++ gap) rest

theorem movedReading_zero (reading : List Node × List Failure) :
    movedReading 0 reading = reading := by
  have hnodes : Node.moved 0 = id := funext Node.moved_zero
  have hfailures : Failure.moved 0 = id := funext Failure.moved_zero
  rw [movedReading, hnodes, hfailures, List.map_id, List.map_id]

theorem movedReading_movedReading (d d' : Displacement) (reading : List Node × List Failure) :
    movedReading d (movedReading d' reading) = movedReading (d + d') reading := by
  simp [movedReading, Node.moved_moved, Failure.moved_moved]

/-- Behind some mistakes, all is read as if the text began there. -/
theorem ResumesAfter.parseRecovering_eq {source pre text : List Char} {n : Nat}
    (h : ResumesAfter source n pre text) :
    ∃ earlier before, before.length = n ∧ parseRecovering (String.ofList source) =
      (earlier ++ (movedReading (.behind pre) (parseRecovering (String.ofList text))).1,
        before ++ (movedReading (.behind pre) (parseRecovering (String.ofList text))).2) := by
  induction h with
  | start =>
    refine ⟨[], [], rfl, ?_⟩
    rw [Displacement.behind_nil, movedReading_zero]
    rfl
  | @next n pre text gap rest completed e left _ hstops hresumes ih =>
    obtain ⟨earlier, before, hlength, heq⟩ := ih
    refine ⟨earlier ++ completed.map (Node.moved (.behind pre)),
      before ++ [(Failure.ofSyntaxError (String.ofList text) e).moved (.behind pre)], ?_, ?_⟩
    · rw [List.length_append, hlength]
      rfl
    · rw [heq, hstops.parseRecovering_eq_append hresumes, Displacement.behind_append,
        ← movedReading_movedReading]
      simp [movedReading]

/-- What is read behind a mistake in a text, which stands behind `pre`: nothing, where no `<` begins
a line, and otherwise what the text from there on is read as, moved. -/
inductive Continues (pre text : List Char) (left : List Token) : List Node → List Failure → Prop
  | ends (hleft : ∀ t ∈ left, t.startsLine = false) : Continues pre text left [] []
  | resumes {gap rest : List Char} (h : ResumesAt text left gap rest) :
      Continues pre text left
        (movedReading (.behind (pre ++ gap)) (parseRecovering (String.ofList rest))).1
        (movedReading (.behind (pre ++ gap)) (parseRecovering (String.ofList rest))).2

theorem Continues.behind {pre text : List Char} {left : List Token} {later : List Node}
    {after : List Failure} (h : Continues [] text left later after) :
    Continues pre text left (movedReading (.behind pre) (later, after)).1
      (movedReading (.behind pre) (later, after)).2 := by
  cases h with
  | ends hleft => exact .ends hleft
  | @resumes gap rest hresumes =>
    have hcontinues : Continues pre text left _ _ := .resumes hresumes
    rw [Displacement.behind_append, ← movedReading_movedReading] at hcontinues
    exact hcontinues

/-- The first mistake is the one with which strict reading fails. -/
theorem exists_continues {text : List Char} {f : Failure}
    (h : parse (String.ofList text) = .error f) :
    ∃ completed e left later after, Stops text completed e left ∧
      Continues [] text left later after ∧
      parseRecovering (String.ofList text) = (completed ++ later, f :: after) := by
  obtain ⟨completed, e, left, hstops, rfl⟩ := exists_of_parse_eq_error h
  by_cases hleft : ∀ t ∈ left, t.startsLine = false
  · refine ⟨completed, e, left, [], [], hstops, .ends hleft, ?_⟩
    rw [hstops.parseRecovering_eq_singleton hleft, List.append_nil]
  · obtain ⟨gap, rest, hresumes⟩ := hstops.exists_resumesAt hleft
    exact ⟨completed, e, left, _, _, hstops, .resumes hresumes,
      hstops.parseRecovering_eq_append hresumes⟩

/-- Behind each mistake but the last, there is a place to go on at. -/
theorem exists_resumesAfter (source : List Char) {n : Nat}
    (h : n < (parseRecovering (String.ofList source)).2.length) :
    ∃ pre text, ResumesAfter source n pre text := by
  induction n with
  | zero => exact ⟨[], source, .start⟩
  | succ n ih =>
    obtain ⟨pre, text, hresumed⟩ := ih (by omega)
    obtain ⟨earlier, before, hlength, heq⟩ := hresumed.parseRecovering_eq
    rw [heq] at h
    simp only [movedReading, List.length_append, List.length_map, hlength] at h
    cases hparse : parse (String.ofList text) with
    | ok nodes =>
      rw [parseRecovering_of_parse_eq_ok hparse, List.length_nil] at h
      omega
    | error f =>
      obtain ⟨completed, e, left, later, after, hstops, hcontinues, htext⟩ :=
        exists_continues hparse
      rw [htext, List.length_cons] at h
      cases hcontinues with
      | ends hleft =>
        rw [List.length_nil] at h
        omega
      | resumes hresumes => exact ⟨_, _, hresumed.next hstops hresumes⟩

/-! ### How much is read -/

theorem Reader.length_nodes_accept_le {policy : EmptyForms} {r r' : Reader} {t : Token}
    (h : r.accept policy t = .ok r') : r'.nodes.length ≤ r.nodes.length + 1 := by
  rcases accept_cases h with ⟨-, rfl⟩ | ⟨-, -, hnodes, -⟩ | ⟨-, -, node, opened, rfl, -, -⟩
  · exact Nat.le_succ _
  · rw [hnodes]
    exact Nat.le_succ _
  · rcases attach_cases node r.nodes opened with hsame | ⟨top, htop, -⟩
    · rw [hsame]
      exact Nat.le_succ _
    · rw [htop]
      exact Nat.le_refl _

/-- A token completes at most one node, or it is a mistake. -/
theorem length_readRecovering_le (r : Reader) (skipping : Bool) (errors : List SyntaxError)
    (ts : List Token) :
    (readRecovering r skipping errors ts).1.length +
        (readRecovering r skipping errors ts).2.length ≤
      r.nodes.length + errors.length + ts.length := by
  fun_induction readRecovering r skipping errors ts with
  | case1 r skipping errors => simp
  | case2 r skipping errors t ts hend =>
    simp only [List.length_reverse]
    omega
  | case3 r skipping errors t ts hend hskip ih =>
    rw [List.length_cons]
    omega
  | case4 r skipping errors t ts hend hskip next hnext ih =>
    have hnodes := Reader.length_nodes_accept_le hnext
    rw [List.length_cons]
    omega
  | case5 r skipping errors t ts hend hskip e herror hstart ih =>
    simp only [List.length_cons] at ih ⊢
    omega
  | case6 r skipping errors t ts hend hskip e herror hstart ih =>
    simp only [List.length_cons] at ih ⊢
    omega

/-! ### The two ways of reading -/

theorem parseRecovering_ordered (source : String) :
    ∃ places : List (Nat ×ₗ Nat), (parseRecovering source).2.map Failure.place? = places.map some ∧
      places.Pairwise (· ≤ ·) := by
  refine ⟨(parseAllowingErrors source).2.map (·.span.place), ?_, ?_⟩
  · rw [parseRecovering, List.map_map, List.map_map]
    rfl
  · have hordered := (parseAllowingErrors_ordered source.toList).2
    rw [String.ofList_toList] at hordered
    exact List.pairwise_map.mpr hordered

/-- Each mistake is the one with which strict reading fails, of the text from where reading went on
before it.  All nodes and mistakes behind it are those of the text from where reading goes on. -/
theorem exists_of_mem_parseRecovering {source : List Char} {before after : List Failure}
    {f : Failure} (h : (parseRecovering (String.ofList source)).2 = before ++ f :: after) :
    ∃ pre text completed e left g, ResumesAfter source before.length pre text ∧
      Stops text completed e left ∧ parse (String.ofList text) = .error g ∧
      f = g.moved (.behind pre) ∧
      ∃ earlier later, (parseRecovering (String.ofList source)).1 =
        earlier ++ completed.map (Node.moved (.behind pre)) ++ later ∧
        Continues pre text left later after := by
  have hcount : before.length < (parseRecovering (String.ofList source)).2.length := by
    rw [h, List.length_append, List.length_cons]
    omega
  obtain ⟨pre, text, hresumed⟩ := exists_resumesAfter source hcount
  obtain ⟨earlier, before', hlength, heq⟩ := hresumed.parseRecovering_eq
  rw [heq] at h ⊢
  obtain ⟨rfl, hrest⟩ := List.append_inj h hlength
  cases hparse : parse (String.ofList text) with
  | ok nodes =>
    rw [parseRecovering_of_parse_eq_ok hparse] at hrest
    cases hrest
  | error g =>
    obtain ⟨completed, e, left, later, after', hstops, hcontinues, htext⟩ :=
      exists_continues hparse
    rw [htext] at hrest ⊢
    obtain ⟨hf, rfl⟩ := List.cons.inj hrest
    refine ⟨pre, text, completed, e, left, g, hresumed, hstops, hparse, hf.symm, earlier, _, ?_,
      hcontinues.behind⟩
    rw [movedReading, List.map_append, List.append_assoc]
    rfl

/-- Reading on behind mistakes ends after at most one node or mistake for each token.  It agrees
with strict reading: it finds no mistake exactly when strict reading succeeds, and then the same
nodes, and its first mistake is the one with which strict reading fails.  Its mistakes are in the
order of their places.  Behind each of them it reads the text from the next `<` that begins a line,
with offsets and line numbers moved by the text before.  In a text of fewer than `2 ^ 32 - 1`
characters the lines and columns of all nodes and mistakes fit into 32 bits. -/
theorem parseRecovering_in_step (source : String) :
    (parseRecovering source).1.length + (parseRecovering source).2.length ≤
      (tokenize source).length ∧
    ((parseRecovering source).2 = [] ↔ ∃ nodes, parse source = .ok nodes) ∧
    (∀ nodes, parse source = .ok nodes → parseRecovering source = (nodes, [])) ∧
    (∀ f, parse source = .error f → (parseRecovering source).2.head? = some f) ∧
    (∃ places : List (Nat ×ₗ Nat),
      (parseRecovering source).2.map Failure.place? = places.map some ∧
      places.Pairwise (· ≤ ·)) ∧
    (source.length + 1 < UInt32.size →
      (∀ node, Node.Within (parseRecovering source).1 node → node.span.Fits) ∧
        ∀ f ∈ (parseRecovering source).2, f.Fits) ∧
    ∀ before f after, (parseRecovering source).2 = before ++ f :: after →
      ∃ pre text completed e left g, ResumesAfter source.toList before.length pre text ∧
        Stops text completed e left ∧ parse (String.ofList text) = .error g ∧
        f = g.moved (.behind pre) ∧
        ∃ earlier later, (parseRecovering source).1 =
          earlier ++ completed.map (Node.moved (.behind pre)) ++ later ∧
          Continues pre text left later after := by
  obtain ⟨text, rfl⟩ : ∃ text, source = String.ofList text :=
    ⟨source.toList, String.ofList_toList.symm⟩
  have hfirst : ∀ f, parse (String.ofList text) = .error f →
      (parseRecovering (String.ofList text)).2.head? = some f := by
    intro f hparse
    obtain ⟨completed, e, left, later, after, -, -, htext⟩ := exists_continues hparse
    rw [htext]
    rfl
  refine ⟨?_, ⟨?_, ?_⟩, fun _ => parseRecovering_of_parse_eq_ok, hfirst,
    parseRecovering_ordered _, parseRecovering_fits, ?_⟩
  · have hcount := length_readRecovering_le .initial false [] (tokenize (String.ofList text))
    rw [parseRecovering, List.length_map, parseAllowingErrors]
    simpa [Reader.initial] using hcount
  · intro hnone
    cases hparse : parse (String.ofList text) with
    | ok nodes => exact ⟨nodes, rfl⟩
    | error f =>
      have hsome := hfirst f hparse
      rw [hnone] at hsome
      cases hsome
  · rintro ⟨nodes, hparse⟩
    rw [parseRecovering_of_parse_eq_ok hparse]
  · intro before f after h
    rw [String.toList_ofList]
    exact exists_of_mem_parseRecovering h

-- a form is saved behind each of two mistakes
example : (parseRecovering ")\n<A>\n<>\n<B>").1.map (·.span.line) = [2, 4] ∧
    (parseRecovering ")\n<A>\n<>\n<B>").2.map Failure.place? =
      [some (toLex (1, 1)), some (toLex (3, 1))] := by
  constructor
  · cbv
  · cbv

end TextAdventure
