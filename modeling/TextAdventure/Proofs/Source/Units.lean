import Mathlib
import TextAdventure.Game.Load
import TextAdventure.Proofs.Source.Recovery
import TextAdventure.Proofs.Source.Tiling

/-!
Texts behind whole lines that can be read.

A text that is empty or ends in a newline, and that can be read, does not reach into what stands
behind it: every token of it is cut off before its end, and nothing is open there.  So a text
behind it is read as it is alone, with offsets and line numbers moved, and source units can be
read one by one or as one text.

* `Lexeme.scan_append` — a token is cut off before the end of its line;
* `tokensFrom_append` — the tokens of a text behind another;
* `parse_append`, `parseRecovering_append` — reading a text behind whole lines that can be read;
* `parse_join` — units that can be read, as one text;
* `units_compositional` — reading texts one behind the other, and units one by one.

Design notes.  Of the tokens of whole lines only a string literal that is not closed reaches the
end, and a text with such a token cannot be read.  A character literal may take the last newline,
and still ends there.
-/

namespace TextAdventure

/-! ### Whole lines -/

/-- A text that is empty or ends in a newline. -/
def WholeLines (cs : List Char) : Prop := cs = [] ∨ ∃ lines, cs = lines ++ ['\n']

namespace WholeLines

variable {cs ds : List Char}

theorem of_append (h : WholeLines (cs ++ ds)) : WholeLines ds := by
  rcases List.eq_nil_or_concat ds with rfl | ⟨front, c, rfl⟩
  · exact .inl rfl
  · rcases h with hnil | ⟨lines, hlines⟩
    · simp at hnil
    · rw [List.concat_eq_append, ← List.append_assoc, List.append_singleton_inj] at hlines
      exact .inr ⟨front, by rw [List.concat_eq_append, hlines.2]⟩

theorem append (h : WholeLines cs) (h' : WholeLines ds) : WholeLines (cs ++ ds) := by
  rcases h' with rfl | ⟨lines, rfl⟩
  · rwa [List.append_nil]
  · exact .inr ⟨cs ++ lines, by rw [List.append_assoc]⟩

/-- Behind whole lines a line begins. -/
theorem column_eq (h : WholeLines cs) : (Position.start.advance cs).column = 1 := by
  rw [Position.advance_start_column]
  rcases h with rfl | ⟨lines, rfl⟩
  · rfl
  · rw [lastLine_concat, if_pos rfl]
    rfl

/-- Behind a character that is no blank, whole lines go on to a newline. -/
theorem newline_mem {c : Char} (hc : isBlank c = false) (h : WholeLines (c :: cs)) :
    '\n' ∈ cs := by
  rcases h with hnil | ⟨lines, hlines⟩
  · cases hnil
  · cases lines with
    | nil =>
      obtain ⟨rfl, -⟩ := List.cons.inj hlines
      exact absurd hc (by decide)
    | cons d lines =>
      obtain ⟨-, rfl⟩ := List.cons.inj hlines
      simp

end WholeLines

/-! ### Tokens -/

/-- A text does not go on in the line before it: it is empty or begins with a newline. -/
def StartsLine (more : List Char) : Prop := ∀ c ∈ more.head?, c = '\n'

theorem takeWhile_append_of_stop {p : Char → Bool} {cs more : List Char} (hp : p '\n' = false)
    (hstop : '\n' ∈ cs ∨ StartsLine more) : (cs ++ more).takeWhile p = cs.takeWhile p := by
  rw [List.takeWhile_append]
  split
  · rename_i hlength
    have hwhole : cs.takeWhile p = cs := (List.takeWhile_sublist p).eq_of_length hlength
    rcases hstop with hnewline | hmore
    · -- the run does not go on behind the newline, so it is not all of the text
      have hall : cs.all p = true := by
        rw [← hwhole]
        exact List.all_takeWhile
      have hholds := List.all_eq_true.mp hall _ hnewline
      rw [hp] at hholds
      cases hholds
    · rw [hwhole]
      cases more with
      | nil => exact List.append_nil cs
      | cons c more =>
        rw [hmore c rfl, List.takeWhile_cons_of_neg (by simp [hp]), List.append_nil]
  · rfl

/-- A well-formed token is cut off before the end of its line, so nothing behind a newline matters
to it. -/
theorem Lexeme.scan_append {c : Char} {cs more : List Char} (hc : isBlank c = false)
    (hstop : '\n' ∈ cs ∨ StartsLine more) (hformed : ∀ fault, (scan c cs).1 ≠ .malformed fault) :
    scan c (cs ++ more) = scan c cs := by
  rcases scan_cases hc with ⟨make, p, hp, hscan⟩ | rfl | rfl
  · rw [hscan, hscan, takeWhile_append_of_stop hp hstop]
  · rcases hread : Text.readQuoted cs with _ | ⟨text, rest⟩
    · rw [scan_quote_of_none hread] at hformed
      exact absurd rfl (hformed _)
    · obtain ⟨taken, rfl, htaken⟩ := Text.readQuoted_split hread
      rw [List.append_assoc, scan_quote_of_some (htaken _), scan_quote_of_some hread]
      simp
  · -- a character literal that is well formed has its character
    cases cs with
    | nil => exact absurd rfl (hformed _)
    | cons d ds => rfl

/-- A text whose tokens are well formed, and another behind it that does not go on in its last
line: the tokens of the second come behind those of the first. -/
theorem tokensFrom_append {p : Position} {cs more : List Char}
    (hlines : WholeLines cs ∨ StartsLine more)
    (hformed : ∀ t ∈ tokensFrom p cs, ∀ fault, t.lexeme ≠ .malformed fault) :
    ∃ body, tokensFrom p cs = body ++ [.endAt (p.advance cs)] ∧
      tokensFrom p (cs ++ more) = body ++ tokensFrom (p.advance cs) more := by
  induction p, cs using tokens_induction with
  | nil p => exact ⟨[], tokensFrom_nil p, rfl⟩
  | blank p c cs hc ih =>
    rw [tokensFrom_blank hc] at hformed
    have hrest : WholeLines ([c] ++ cs) ∨ StartsLine more := hlines
    obtain ⟨body, hbody, happend⟩ := ih (hrest.imp_left WholeLines.of_append) hformed
    refine ⟨body, ?_, ?_⟩
    · rw [tokensFrom_blank hc, hbody]
      rfl
    · rw [List.cons_append, tokensFrom_blank hc, happend]
      rfl
  | token p c body rest l hc hscan ih =>
    rw [tokensFrom_scan hc hscan] at hformed
    have hrest : WholeLines ((c :: body) ++ rest) ∨ StartsLine more := hlines
    obtain ⟨ts, hts, happend⟩ := ih (hrest.imp_left WholeLines.of_append) fun t ht =>
      hformed t (List.mem_cons_of_mem _ ht)
    -- the first token ends where it did, so it leaves the same, with more behind it
    have hsame : Lexeme.scan c (body ++ (rest ++ more)) = (l, body.length) := by
      rw [← List.append_assoc, Lexeme.scan_append hc (hlines.imp_left (·.newline_mem hc)), hscan]
      rw [hscan]
      exact hformed _ List.mem_cons_self
    refine ⟨⟨l, Span.between p (p.advance (c :: body)), c :: body⟩ :: ts, ?_, ?_⟩
    · rw [tokensFrom_scan hc hscan, hts, ← Position.advance_append]
      rfl
    · rw [List.cons_append, List.append_assoc, tokensFrom_scan hc hsame, happend,
        ← Position.advance_append]
      rfl

/-! ### Reading -/

theorem Reader.accept_ne_ok_of_malformed {policy : EmptyForms} {r : Reader} {t : Token}
    {fault : LexicalFault} (ht : t.lexeme = .malformed fault) (r' : Reader) :
    r.accept policy t ≠ .ok r' := by
  intro h
  rw [accept, if_neg (by rw [ht]; exact Bool.false_ne_true)] at h
  cases hangle : r.angle with
  | some start =>
    rw [hangle] at h
    simp [acceptOperator, ht] at h
  | none =>
    rw [hangle] at h
    simp [acceptNode, ht] at h

/-- Tokens that are accepted are well formed. -/
theorem Reader.lexeme_ne_malformed {policy : EmptyForms} {r r' : Reader} {ts : List Token}
    (h : r.acceptAll policy ts = .ok r') : ∀ t ∈ ts, ∀ fault, t.lexeme ≠ .malformed fault := by
  induction ts generalizing r with
  | nil => exact nofun
  | cons t ts ih =>
    obtain ⟨next, hnext, hrest⟩ := acceptAll_cons_eq_ok h
    intro u hu fault hfault
    rcases List.mem_cons.mp hu with rfl | hu
    · exact accept_ne_ok_of_malformed hfault next hnext
    · exact ih hrest u hu fault hfault

theorem readNodes_append_of_ok {r next : Reader} {ts : List Token}
    (h : r.acceptAll .refused ts = .ok next) (us : List Token) :
    readNodes r (ts ++ us) = readNodes next us := by
  induction ts generalizing r with
  | nil =>
    cases h
    rfl
  | cons t ts ih =>
    obtain ⟨mid, hmid, hrest⟩ := Reader.acceptAll_cons_eq_ok h
    rw [List.cons_append, readNodes_cons_of_ok hmid, ih hrest]

/-- Reading tokens that are moved, behind other nodes: these stay, and all that is read is moved. -/
theorem readNodes_moved (d : Displacement) (base : List Node) (r : Reader) (ts : List Token) :
    readNodes (r.moved d base) (ts.map (Token.moved d)) =
      ((readNodes r ts).map fun nodes => base.reverse ++ nodes.map (Node.moved d)).mapError
        (SyntaxError.moved d) := by
  have hstop : ∀ r : Reader, (r.moved d base).nodes.reverse =
      base.reverse ++ r.nodes.reverse.map (Node.moved d) := by
    intro r
    simp [Reader.moved]
  induction ts generalizing r with
  | nil => exact congrArg Except.ok (hstop r)
  | cons t ts ih =>
    rw [List.map_cons, readNodes, readNodes, Reader.isIdle_moved, Token.lexeme_moved,
      Reader.accept_moved]
    split
    · exact congrArg Except.ok (hstop r)
    · cases r.accept .refused t with
      | ok next => exact ih next
      | error e => rfl

/-- The tokens of a text behind whole lines that can be read: those of the lines are accepted, and
leave nothing open, and those of the text are moved. -/
theorem exists_tokens_append {a : List Char} {nodes : List Node} (hlines : WholeLines a)
    (h : parseNodes (String.ofList a) = .ok nodes) (b : List Char) :
    ∃ body, Reader.initial.acceptAll .refused body = .ok ⟨none, [], nodes.reverse⟩ ∧
      tokenize (String.ofList (a ++ b)) =
        body ++ (tokenize (String.ofList b)).map (Token.moved (.behind a)) := by
  obtain ⟨body, last, htokens, hlast, hbody, -⟩ := tokenize_eq_append (String.ofList a)
  rw [parseNodes, htokens, readNodes_eq_ok_iff hbody hlast] at h
  obtain ⟨⟨angle, opened, read⟩, hread, hidle, rfl⟩ := h
  obtain ⟨rfl, rfl⟩ : angle = none ∧ opened = [] := by simpa [Reader.isIdle] using hidle
  rw [tokenize_ofList] at htokens
  have hformed : ∀ t ∈ tokensFrom .start a, ∀ fault, t.lexeme ≠ .malformed fault := by
    intro t ht fault
    rw [htokens] at ht
    rcases List.mem_append.mp ht with ht | ht
    · exact Reader.lexeme_ne_malformed hread t ht fault
    · rw [List.mem_singleton.mp ht, hlast]
      intro hfault
      cases hfault
  -- the end of the lines is one token, so both splittings leave the same body
  have hstop : WholeLines a ∨ StartsLine b := .inl hlines
  obtain ⟨body', hbody', happend⟩ := tokensFrom_append hstop hformed
  obtain ⟨rfl, -⟩ := List.append_singleton_inj.mp (htokens.symm.trans hbody')
  refine ⟨body, by rw [List.reverse_reverse]; exact hread, ?_⟩
  rw [tokenize_ofList, tokenize_ofList, happend, Position.advance_start hlines.column_eq,
    tokensFrom_moved]

section Behind

variable {a : List Char} {nodes : List Node}

theorem parseNodes_append (hlines : WholeLines a) (h : parseNodes (String.ofList a) = .ok nodes)
    (b : List Char) :
    parseNodes (String.ofList (a ++ b)) =
      ((parseNodes (String.ofList b)).map fun more =>
        nodes ++ more.map (Node.moved (.behind a))).mapError (SyntaxError.moved (.behind a)) := by
  obtain ⟨body, hbody, htokens⟩ := exists_tokens_append hlines h b
  rw [parseNodes, htokens, readNodes_append_of_ok hbody]
  have hmoved := readNodes_moved (.behind a) nodes.reverse .initial (tokenize (String.ofList b))
  rw [List.reverse_reverse] at hmoved
  exact hmoved

theorem parseAllowingErrors_append (hlines : WholeLines a)
    (h : parseNodes (String.ofList a) = .ok nodes) (b : List Char) :
    parseAllowingErrors (String.ofList (a ++ b)) =
      (nodes ++ (parseAllowingErrors (String.ofList b)).1.map (Node.moved (.behind a)),
        (parseAllowingErrors (String.ofList b)).2.map (SyntaxError.moved (.behind a))) := by
  obtain ⟨body, hbody, htokens⟩ := exists_tokens_append hlines h b
  rw [parseAllowingErrors, htokens, readRecovering_append_of_ok hbody]
  have hmoved := readRecovering_moved (.behind a) nodes.reverse [] .initial false []
    (tokenize (String.ofList b))
  rw [List.reverse_reverse] at hmoved
  exact hmoved

end Behind

theorem exists_eq_ofList (source : String) : ∃ text, source = String.ofList text :=
  ⟨source.toList, String.ofList_toList.symm⟩

section Behind

variable {a : String} {nodes : List Node}

/-- Behind whole lines that can be read, a text is read as it is alone, moved. -/
theorem parse_append (hlines : WholeLines a.toList) (h : parse a = .ok nodes) (b : String) :
    parse (a ++ b) =
      ((parse b).map fun more => nodes ++ more.map (Node.moved (.behind a.toList))).mapError
        (Failure.moved (.behind a.toList)) := by
  obtain ⟨before, rfl⟩ := exists_eq_ofList a
  obtain ⟨text, rfl⟩ := exists_eq_ofList b
  rw [String.toList_ofList] at hlines ⊢
  rw [parse, mapError_eq_ok_iff] at h
  rw [← String.ofList_append, parse, parse, parseNodes_append hlines h]
  cases htext : parseNodes (String.ofList text) with
  | ok more => rfl
  | error e =>
    obtain ⟨completed, left, hstops⟩ := exists_stops htext
    have hline := Span.one_le_line hstops.start_le
    exact congrArg Except.error (Failure.ofSyntaxError_moved hlines.column_eq text hline)

theorem parseRecovering_append (hlines : WholeLines a.toList) (h : parse a = .ok nodes)
    (b : String) :
    parseRecovering (a ++ b) =
      (nodes ++ (movedReading (.behind a.toList) (parseRecovering b)).1,
        (movedReading (.behind a.toList) (parseRecovering b)).2) := by
  obtain ⟨before, rfl⟩ := exists_eq_ofList a
  obtain ⟨text, rfl⟩ := exists_eq_ofList b
  rw [String.toList_ofList] at hlines ⊢
  rw [parse, mapError_eq_ok_iff] at h
  rw [← String.ofList_append, parseRecovering_eq, parseAllowingErrors_append hlines h,
    movedReading, parseRecovering_eq, List.map_map, List.map_map,
    map_ofSyntaxError_moved hlines.column_eq]

end Behind

/-! ### Units -/

theorem readUnit_eq (name source : String) :
    readUnit name source = (parse source).mapError (·.inSource name) := by
  obtain ⟨text, rfl⟩ := exists_eq_ofList source
  rw [readUnit]
  cases hparse : parse (String.ofList text) with
  | ok nodes =>
    rw [parseRecovering_of_parse_eq_ok hparse]
    rfl
  | error f =>
    obtain ⟨completed, e, left, later, after, -, -, htext⟩ := exists_continues hparse
    rw [htext]
    rfl

namespace Node

mutual

theorem bare_moved (d : Displacement) : ∀ node : Node, (node.moved d).bare = node.bare
  | .form operator args span => by rw [moved, bare, bare, bareAll_movedAll d args]
  | .list items span => by rw [moved, bare, bare, bareAll_movedAll d items]
  | .empty span => rfl
  | .atom name span => rfl
  | .reference sigil name span => rfl
  | .literal value span => rfl
  | .marked marker body span => by rw [moved, bare, bare, bare_moved d body]

theorem bareAll_movedAll (d : Displacement) :
    ∀ nodes : List Node, bareAll (movedAll d nodes) = bareAll nodes
  | [] => rfl
  | node :: nodes => by rw [movedAll, bareAll, bareAll, bare_moved d node, bareAll_movedAll d nodes]

end

theorem SameTrees.append {nodes nodes' more more' : List Node} (h : SameTrees nodes nodes')
    (hmore : SameTrees more more') : SameTrees (nodes ++ more) (nodes' ++ more') := by
  rw [SameTrees, bareAll_eq, bareAll_eq] at *
  rw [List.map_append, List.map_append, h, hmore]

theorem sameTrees_map_moved (d : Displacement) (nodes : List Node) :
    SameTrees nodes (nodes.map (moved d)) := by
  rw [SameTrees, ← movedAll_eq_map, bareAll_movedAll]

end Node

/-- The text of all units, one behind the other. -/
def joined (units : List (String × String)) : String := String.join (units.map Prod.snd)

/-- A unit is whole lines and can be read. -/
def IsComplete (unit : String × String) : Prop :=
  WholeLines unit.2.toList ∧ ∃ nodes, parse unit.2 = .ok nodes

theorem readSources_cons_of_ok {unit : String × String} {nodes : List Node}
    (h : parse unit.2 = .ok nodes) (units : List (String × String)) :
    readSources (unit :: units) = (readSources units).map (nodes ++ ·) := by
  rw [readSources, readUnit_eq, h]
  cases readSources units <;> rfl

theorem readSources_append_of_ok {units : List (String × String)}
    (hunits : ∀ unit ∈ units, IsComplete unit) {loaded : List Node}
    (h : readSources units = .ok loaded) (more : List (String × String)) :
    readSources (units ++ more) = (readSources more).map (loaded ++ ·) := by
  induction units generalizing loaded with
  | nil =>
    cases h
    rw [List.nil_append]
    cases readSources more <;> rfl
  | cons unit units ih =>
    obtain ⟨-, nodes, hnodes⟩ := hunits unit List.mem_cons_self
    rw [readSources_cons_of_ok hnodes] at h
    cases hrest : readSources units with
    | error f =>
      rw [hrest] at h
      cases h
    | ok rest =>
      rw [hrest] at h
      cases h
      rw [List.cons_append, readSources_cons_of_ok hnodes,
        ih (fun u hu => hunits u (List.mem_cons_of_mem _ hu)) hrest]
      cases readSources more with
      | error f => rfl
      | ok last => exact congrArg Except.ok (List.append_assoc nodes rest last).symm

/-- Complete units are one complete unit, with the same nodes elsewhere. -/
theorem parse_join {units : List (String × String)} (hunits : ∀ unit ∈ units, IsComplete unit) :
    WholeLines (joined units).toList ∧ ∃ loaded nodes, readSources units = .ok loaded ∧
      parse (joined units) = .ok nodes ∧ Node.SameTrees loaded nodes := by
  induction units with
  | nil => exact ⟨.inl rfl, [], [], rfl, by cbv, rfl⟩
  | cons unit units ih =>
    obtain ⟨hlines, nodes, hnodes⟩ := hunits unit List.mem_cons_self
    obtain ⟨hrest, loaded, more, hloaded, hmore, hsame⟩ :=
      ih fun u hu => hunits u (List.mem_cons_of_mem _ hu)
    have hjoined : joined (unit :: units) = unit.2 ++ joined units := String.join_cons
    rw [hjoined, String.toList_append]
    refine ⟨hlines.append hrest, nodes ++ loaded,
      nodes ++ more.map (Node.moved (.behind unit.2.toList)), ?_, ?_, ?_⟩
    · rw [readSources_cons_of_ok hnodes, hloaded]
      rfl
    · rw [parse_append hlines hnodes, hmore]
      rfl
    · have hmoved := Node.sameTrees_map_moved (.behind unit.2.toList) more
      exact .append rfl (hsame.trans hmoved)

/-- Complete units and a last one: to read them one by one comes to the same as to read them as one
text.  Both give the same nodes elsewhere, or both fail where the last unit fails. -/
theorem readSources_concat {units : List (String × String)}
    (hunits : ∀ unit ∈ units, IsComplete unit) (last : String × String) (name : String) :
    (∃ loaded nodes, readSources (units ++ [last]) = .ok loaded ∧
      readUnit name (joined (units ++ [last])) = .ok nodes ∧ Node.SameTrees loaded nodes) ∨
    ∃ f, parse last.2 = .error f ∧
      readSources (units ++ [last]) = .error (f.inSource last.1) ∧
      readUnit name (joined (units ++ [last])) =
        .error ((f.moved (.behind (joined units).toList)).inSource name) := by
  obtain ⟨hlines, loaded, nodes, hloaded, hnodes, hsame⟩ := parse_join hunits
  have hjoined : joined (units ++ [last]) = joined units ++ last.2 := by
    simp [joined]
  rw [readUnit_eq, hjoined, parse_append hlines hnodes, readSources_append_of_ok hunits hloaded]
  cases hlast : parse last.2 with
  | ok more =>
    refine .inl ⟨loaded ++ more, _, ?_, rfl, hsame.append (Node.sameTrees_map_moved _ more)⟩
    rw [readSources_cons_of_ok hlast]
    show Except.ok (loaded ++ (more ++ [])) = _
    rw [List.append_nil]
  | error f =>
    refine .inr ⟨f, rfl, ?_, rfl⟩
    rw [readSources, readUnit_eq, hlast]
    rfl

theorem exists_unreadable {source : String} {f : Failure} (h : parse source = .error f) :
    ∃ fault line column text, f = .ofFault (.unreadable fault line column text) := by
  obtain ⟨text, rfl⟩ := exists_eq_ofList source
  obtain ⟨_, e, _, -, rfl⟩ := exists_of_parse_eq_error h
  exact ⟨_, _, _, _, rfl⟩

/-- Reading is compositional.  Behind whole lines that can be read, a text can be read exactly when
it can be read alone, and then its nodes come behind those of the lines, moved.  If it cannot be
read, the mistake is the same, in the same column of the same line of text, and only the number of
that line is higher, by the number of lines before.  The same holds of reading on behind mistakes.
If the two together have fewer than `2 ^ 32 - 1` characters, all lines and columns fit into 32 bits.
So complete units and a last one give the same nodes, up to where they stand, one by one and as one
text, or both fail. -/
theorem units_compositional :
    (∀ (a b : String) (nodes : List Node), WholeLines a.toList → parse a = .ok nodes →
      ((∃ all, parse (a ++ b) = .ok all) ↔ ∃ more, parse b = .ok more) ∧
      (∀ more, parse b = .ok more →
        parse (a ++ b) = .ok (nodes ++ more.map (Node.moved (.behind a.toList)))) ∧
      (∀ f, parse b = .error f → ∃ fault line column text,
        f = .ofFault (.unreadable fault line column text) ∧
        parse (a ++ b) =
          .error (.ofFault (.unreadable fault (a.toList.count '\n' + line) column text))) ∧
      parseRecovering (a ++ b) =
        (nodes ++ (parseRecovering b).1.map (Node.moved (.behind a.toList)),
          (parseRecovering b).2.map (Failure.moved (.behind a.toList))) ∧
      ((a ++ b).length + 1 < UInt32.size →
        (∀ node, Node.Within (parseRecovering (a ++ b)).1 node → node.span.Fits) ∧
          ∀ f ∈ (parseRecovering (a ++ b)).2, f.Fits)) ∧
    ∀ (units : List (String × String)) (last : String × String) (name : String),
      (∀ unit ∈ units, IsComplete unit) →
      (∃ loaded nodes, readSources (units ++ [last]) = .ok loaded ∧
        readUnit name (joined (units ++ [last])) = .ok nodes ∧ Node.SameTrees loaded nodes) ∨
      ∃ f f', readSources (units ++ [last]) = .error f ∧
        readUnit name (joined (units ++ [last])) = .error f' := by
  refine ⟨fun a b nodes hlines ha => ?_, fun units last name hunits => ?_⟩
  · have happend := parse_append hlines ha b
    refine ⟨?_, ?_, ?_, parseRecovering_append hlines ha b, parseRecovering_fits⟩
    · rw [happend]
      cases parse b with
      | ok more => exact ⟨fun _ => ⟨more, rfl⟩, fun _ => ⟨_, rfl⟩⟩
      | error f => exact ⟨nofun, nofun⟩
    · intro more hmore
      rw [happend, hmore]
      rfl
    · intro f hf
      obtain ⟨fault, line, column, text, rfl⟩ := exists_unreadable hf
      refine ⟨fault, line, column, text, rfl, ?_⟩
      rw [happend, hf]
      rfl
  · rcases readSources_concat hunits last name with hboth | ⟨f, -, hunits, hjoined⟩
    · exact .inl hboth
    · exact .inr ⟨_, _, hunits, hjoined⟩

/-- The character literal of the first text takes its only newline, and the second text is read
behind it, or is refused on the second line. -/
theorem units_compositional_charLiteral :
    parse ("\\\n" ++ "<B>") =
      .ok ([.literal (.char '\n') ⟨0, 2, 1, 1⟩] ++ [.form "B" [] ⟨2, 5, 2, 1⟩]) ∧
    parse ("\\\n" ++ "<B") = .error (.ofFault (.unreadable .unterminatedForm 2 1 "<B")) := by
  have hlines : WholeLines "\\\n".toList := .inr ⟨['\\'], rfl⟩
  have hliteral : parse "\\\n" = .ok [.literal (.char '\n') ⟨0, 2, 1, 1⟩] := by cbv
  have hform : parse "<B>" = .ok [.form "B" [] ⟨0, 3, 1, 1⟩] := by cbv
  have hopen : parse "<B" = .error (.ofFault (.unreadable .unterminatedForm 1 1 "<B")) := by cbv
  obtain ⟨-, hread, -, -⟩ := units_compositional.1 "\\\n" "<B>" _ hlines hliteral
  obtain ⟨-, -, hrefused, -⟩ := units_compositional.1 "\\\n" "<B" _ hlines hliteral
  obtain ⟨fault, line, column, text, hfault, hboth⟩ := hrefused _ hopen
  cases hfault
  exact ⟨hread _ hform, hboth⟩

end TextAdventure
