import Mathlib
import TextAdventure.Proofs.Source.Likeness
import TextAdventure.Proofs.Source.Place
import TextAdventure.Proofs.Source.Tiling

/-!
Nodes stand where they are spelled.

A node that is read from a text goes from the first of the tokens that spell it to the last, and
these tokens stand in a row in the text, with comments between them at most.  So the piece of text
that the span of a node covers is cut into these tokens, and read alone it is that node.

* `spellsEach_of_parse` — the tokens of a text spell the nodes that are read from it;
* `Spells.span_eq` — from the first token to the last;
* `Spells.inside`, `SpellsEach.ordered` — parts of a node are inside it, one behind the other;
* `Spells.transport` — tokens that stand elsewhere spell the same node elsewhere;
* `Spells.exists_place` — the piece of the text in which a node stands;
* `parse_spans_faithful` — the place of each node in a text, and what is read from its own text.

Design notes.  Columns change when a piece of a line is read alone, so the two readings of a node
are compared by byte offsets only (`Span.ShiftedBy`).
-/

namespace TextAdventure

/-! ### The tokens that spell a node -/

/-- The tokens of a text but its end, comments left out, spell the nodes that are read from it. -/
theorem spellsEach_of_parse {source : String} {nodes : List Node} (h : parse source = .ok nodes) :
    ∃ body last, tokenize source = body ++ [last] ∧
      SpellsEach (body.filter (! ·.lexeme.isComment)) nodes := by
  obtain ⟨body, last, htokens, hlast, hbody, hlexemes⟩ := tokenize_eq_append source
  obtain ⟨hword, hform⟩ := (exists_parse_iff source nodes).mp ⟨nodes, h, rfl⟩
  rw [parse, mapError_eq_ok_iff, parseNodes, htokens, readNodes_eq_ok_iff hbody hlast] at h
  obtain ⟨r, hr, -, rfl⟩ := h
  rw [hlexemes] at hword
  obtain ⟨nodes', -, hspells, hread⟩ := Reader.acceptAll_initial (.inr hform) hword.symm
  -- the reader is a function, so these are the nodes that were read
  rw [hr] at hread
  cases hread
  rw [List.reverse_reverse]
  exact ⟨body, last, htokens, hspells⟩

/-- Among tokens that spell nodes there are those of each node. -/
theorem SpellsEach.exists_run : ∀ {ts : List Token} {nodes : List Node}, SpellsEach ts nodes →
    ∀ {node : Node}, node ∈ nodes →
    ∃ pre run post, ts = pre ++ (run ++ post) ∧ Spells run node
  | _, _, @SpellsEach.cons ts us first nodes hfirst hnodes, node, hmem => by
    rcases List.mem_cons.mp hmem with rfl | hmem
    · exact ⟨[], ts, us, rfl, hfirst⟩
    · obtain ⟨pre, run, post, rfl, hrun⟩ := hnodes.exists_run hmem
      exact ⟨ts ++ pre, run, post, by simp, hrun⟩

/-- Among the tokens that spell a node there are those of the nodes in it. -/
theorem Spells.exists_children {ts : List Token} {node : Node} (h : Spells ts node) :
    ∃ pre inner post, ts = pre ++ (inner ++ post) ∧ SpellsEach inner node.children := by
  cases h with
  | @literal t => exact ⟨[t], [], [], rfl, .nil⟩
  | @atom t => exact ⟨[t], [], [], rfl, .nil⟩
  | @reference t => exact ⟨[t], [], [], rfl, .nil⟩
  | @marked t _ ts _ _ hbody => exact ⟨[t], ts ++ [], [], by simp, .cons hbody .nil⟩
  | @empty t u => exact ⟨[t, u], [], [], rfl, .nil⟩
  | @form t o u _ ts _ _ _ hargs _ => exact ⟨[t, o], ts, [u], rfl, hargs⟩
  | @list t u ts _ _ hitems _ => exact ⟨[t], ts, [u], rfl, hitems⟩

/-- The tokens of a node at any depth stand in a row. -/
theorem Node.Within.exists_run {nodes : List Node} {node : Node} (h : Node.Within nodes node)
    {ts : List Token} (hts : SpellsEach ts nodes) :
    ∃ pre run post, ts = pre ++ (run ++ post) ∧ Spells run node := by
  induction h with
  | top hmem => exact hts.exists_run hmem
  | child _ hchild ih =>
    obtain ⟨pre, run, post, rfl, hrun⟩ := ih
    obtain ⟨pre₁, inner, post₁, rfl, hinner⟩ := hrun.exists_children
    obtain ⟨pre₂, run₂, post₂, rfl, hrun₂⟩ := hinner.exists_run hchild
    exact ⟨pre ++ (pre₁ ++ pre₂), run₂, post₂ ++ (post₁ ++ post), by simp, hrun₂⟩

/-- A node goes from the first of its tokens to the last. -/
theorem Spells.span_eq : ∀ {ts : List Token} {node : Node}, Spells ts node →
    ∃ first last, ts.head? = some first ∧ ts.getLast? = some last ∧
      node.span = first.span.through last.span
  | _, _, @Spells.literal t _ _ => ⟨t, t, rfl, rfl, rfl⟩
  | _, _, @Spells.atom t _ _ => ⟨t, t, rfl, rfl, rfl⟩
  | _, _, @Spells.reference t _ _ _ => ⟨t, t, rfl, rfl, rfl⟩
  | _, _, @Spells.marked t _ ts body _ hbody => by
    obtain ⟨first, last, -, hlast, hspan⟩ := hbody.span_eq
    refine ⟨t, last, rfl, ?_, ?_⟩
    · rw [List.getLast?_cons, hlast]
      rfl
    · show t.span.through body.span = _
      rw [hspan]
      rfl
  | _, _, @Spells.empty t u _ _ => ⟨t, u, rfl, rfl, rfl⟩
  | _, _, @Spells.form t o u _ ts _ _ _ _ _ => by
    refine ⟨t, u, rfl, ?_, rfl⟩
    rw [← List.cons_append, ← List.cons_append, List.getLast?_concat]
  | _, _, @Spells.list t u ts _ _ _ _ => by
    refine ⟨t, u, rfl, ?_, rfl⟩
    rw [← List.cons_append, List.getLast?_concat]

/-! ### Order -/

/-- Tokens are in order and do not overlap. -/
structure InOrder (ts : List Token) : Prop where
  bounds : ∀ t ∈ ts, t.span.start ≤ t.span.stop
  pairs : ts.Pairwise fun t u => t.span.stop ≤ u.span.start

theorem InOrder.sublist {ts us : List Token} (h : InOrder ts) (hsub : us.Sublist ts) : InOrder us :=
  ⟨fun t ht => h.bounds t (hsub.subset ht), h.pairs.sublist hsub⟩

theorem tokenize_inOrder (source : String) : InOrder (tokenize source) := by
  obtain ⟨hbounds, hpairs⟩ := (tokensFrom_tiles .start source.toList).ordered
  exact ⟨fun t ht => (hbounds t ht).2, hpairs⟩

theorem InOrder.first_le {ts : List Token} (h : InOrder ts) {first : Token}
    (hfirst : ts.head? = some first) {t : Token} (ht : t ∈ ts) :
    first.span.start ≤ t.span.start := by
  obtain ⟨rest, rfl⟩ := List.head?_eq_some_iff.mp hfirst
  rcases List.mem_cons.mp ht with rfl | hrest
  · exact Nat.le_refl _
  · have hbound := h.bounds first List.mem_cons_self
    have hpair := (List.pairwise_cons.mp h.pairs).1 t hrest
    omega

theorem InOrder.le_last {ts : List Token} (h : InOrder ts) {last : Token}
    (hlast : ts.getLast? = some last) {t : Token} (ht : t ∈ ts) :
    t.span.stop ≤ last.span.stop := by
  obtain ⟨rest, rfl⟩ := List.getLast?_eq_some_iff.mp hlast
  rcases List.mem_append.mp ht with hrest | hlast
  · have hbound := h.bounds last (by simp)
    have hpair := (List.pairwise_append.mp h.pairs).2.2 t hrest last List.mem_cons_self
    omega
  · rw [List.mem_singleton.mp hlast]

/-- A part that is spelled by some of the tokens of a node is inside it. -/
theorem Spells.inside {ts run : List Token} {node part : Node} (h : Spells ts node)
    (hts : InOrder ts) (hrun : Spells run part) (hsub : ∀ t ∈ run, t ∈ ts) :
    node.span.start ≤ part.span.start ∧ part.span.stop ≤ node.span.stop := by
  obtain ⟨first, last, hfirst, hlast, hspan⟩ := h.span_eq
  obtain ⟨first', last', hfirst', hlast', hspan'⟩ := hrun.span_eq
  rw [hspan, hspan']
  exact ⟨hts.first_le hfirst (hsub _ (List.mem_of_mem_head? hfirst')),
    hts.le_last hlast (hsub _ (List.mem_of_mem_getLast? hlast'))⟩

/-- Nodes in a row are in order and do not overlap. -/
theorem SpellsEach.ordered : ∀ {ts : List Token} {nodes : List Node}, SpellsEach ts nodes →
    InOrder ts → nodes.Pairwise fun a b => a.span.stop ≤ b.span.start
  | _, _, .nil, _ => .nil
  | _, _, @SpellsEach.cons ts us node nodes hnode hnodes, hts => by
    refine List.pairwise_cons.mpr ⟨fun other hother => ?_,
      hnodes.ordered (hts.sublist (List.sublist_append_right ts us))⟩
    obtain ⟨pre, run, post, rfl, hrun⟩ := hnodes.exists_run hother
    obtain ⟨_, last, -, hlast, hspan⟩ := hnode.span_eq
    obtain ⟨first, _, hfirst, -, hspan'⟩ := hrun.span_eq
    rw [hspan, hspan']
    refine (List.pairwise_append.mp hts.pairs).2.2 last (List.mem_of_mem_getLast? hlast) first ?_
    have hmem := List.mem_of_mem_head? hfirst
    simp [hmem]

/-! ### Rows with comments between -/

/-- The members for which a test holds, from the first to the last of them, with others between
them only. -/
theorem exists_trimmed {p : Token → Bool} {ts run : List Token} (h : ts.filter p = run)
    (hrun : run ≠ []) :
    ∃ pre mid post, ts = pre ++ (mid ++ post) ∧ mid.filter p = run ∧ mid.head? = run.head? ∧
      mid.getLast? = run.getLast? := by
  obtain ⟨first, rest, rfl⟩ := List.exists_cons_of_ne_nil hrun
  obtain ⟨pre, later, rfl, -, hfirst, hlater⟩ := List.filter_eq_cons_iff.mp h
  rcases List.eq_nil_or_concat rest with rfl | ⟨inner, last, rfl⟩
  · exact ⟨pre, [first], later, rfl, by simp [hfirst], rfl, rfl⟩
  · rw [List.concat_eq_append] at hlater
    obtain ⟨mid, ends, rfl, hmid, hends⟩ := List.filter_eq_append_iff.mp hlater
    obtain ⟨others, post, rfl, hothers, hlast, -⟩ := List.filter_eq_cons_iff.mp hends
    -- what the test leaves out may stand between the first and the last, but not behind the last
    have hnone : others.filter p = [] := List.filter_eq_nil_iff.mpr hothers
    refine ⟨pre, first :: (mid ++ others ++ [last]), post, by simp, ?_, rfl, ?_⟩
    · rw [List.filter_cons_of_pos hfirst, List.filter_append, List.filter_append, hmid, hnone,
        List.filter_cons_of_pos hlast, List.filter_nil, List.append_nil, List.concat_eq_append]
    · rw [List.concat_eq_append, List.getLast?_cons, List.getLast?_cons, List.getLast?_concat,
        List.getLast?_concat]

theorem stopOf_of_getLast? {ts : List Token} {last : Token} (h : ts.getLast? = some last)
    (start : Nat) : stopOf start ts = last.span.stop := by
  induction ts generalizing start with
  | nil => cases h
  | cons t ts ih =>
    cases ts with
    | nil =>
      cases h
      rfl
    | cons u us => exact ih h t.span.stop

/-- Tokens in a row of a text, but not its end, are the tokens of a piece of the text. -/
theorem exists_piece {source : String} {ts mid us : List Token} {first last : Token}
    (h : tokenize source = ts ++ (mid ++ us)) (hus : us ≠ []) (hfirst : mid.head? = some first)
    (hlast : mid.getLast? = some last) :
    ∃ before piece after, source.toList = before ++ (piece ++ after) ∧
      first.span.start = (Displacement.behind before).bytes ∧
      last.span.stop = (Displacement.behind (before ++ piece)).bytes ∧
      first.span.line = (Position.start.advance before).line ∧
      first.span.column = (Position.start.advance before).column ∧
      tokensFrom (Position.start.advance before) piece =
        mid ++ [.endAt (Position.start.advance (before ++ piece))] := by
  obtain ⟨rest, rfl⟩ := List.head?_eq_some_iff.mp hfirst
  rw [List.cons_append] at h
  obtain ⟨before, text, htext, htokens, ⟨q, hspan⟩, -⟩ := tokensFrom_split h
  rw [← List.cons_append] at htokens
  obtain ⟨piece, after, rfl, hpiece, hstop⟩ := tokensFrom_covered htokens hus
  rw [stopOf_of_getLast? hlast, ← Position.advance_append, Position.advance_start_offset] at hstop
  rw [← Position.advance_append] at hpiece
  refine ⟨before, piece, after, htext, ?_, hstop, by rw [hspan]; rfl, by rw [hspan]; rfl, hpiece⟩
  rw [hspan, ← Position.advance_start_offset]
  rfl

/-! ### The same tokens elsewhere -/

/-- A span that covers as much, so many bytes further on.  Lines and columns do not count. -/
def Span.ShiftedBy (n : Nat) (s s' : Span) : Prop := s'.start = n + s.start ∧ s'.stop = n + s.stop

/-- A token of the same kind, so many bytes further on. -/
def Token.ShiftedBy (n : Nat) (t t' : Token) : Prop :=
  t.lexeme = t'.lexeme ∧ t.span.ShiftedBy n t'.span

theorem Span.ShiftedBy.through {n : Nat} {s s' u u' : Span} (h : s.ShiftedBy n s')
    (hu : u.ShiftedBy n u') : (s.through u).ShiftedBy n (s'.through u') :=
  ⟨h.1, hu.2⟩

theorem Span.ShiftedBy.between {n : Nat} {p p' q q' : Position} (hp : p'.offset = n + p.offset)
    (hq : q'.offset = n + q.offset) : (Span.between p q).ShiftedBy n (Span.between p' q') :=
  ⟨hp, hq⟩

/-- Read from elsewhere, a text has the same tokens elsewhere. -/
theorem tokensFrom_shifted {n : Nat} {p q : Position} (h : q.offset = n + p.offset)
    (cs : List Char) : List.Forall₂ (Token.ShiftedBy n) (tokensFrom p cs) (tokensFrom q cs) := by
  have hadvance : ∀ (p q : Position) (ds : List Char), q.offset = n + p.offset →
      (q.advance ds).offset = n + (p.advance ds).offset := by
    intro p q ds hpq
    rw [Position.advance_offset, Position.advance_offset, hpq, Nat.add_assoc]
  induction p, cs using tokens_induction generalizing q with
  | nil p =>
    rw [tokensFrom_nil, tokensFrom_nil]
    exact .cons ⟨rfl, .between h h⟩ .nil
  | blank p c cs hc ih =>
    rw [tokensFrom_blank hc, tokensFrom_blank hc]
    exact ih (hadvance p q [c] h)
  | token p c body rest l hc hscan ih =>
    rw [tokensFrom_scan hc hscan, tokensFrom_scan hc hscan]
    have hrest := hadvance p q (c :: body) h
    exact .cons ⟨rfl, .between h hrest⟩ (ih hrest)

theorem exists_of_forall₂_append {R : Token → Token → Prop} {ts us vs : List Token}
    (h : List.Forall₂ R ts (us ++ vs)) :
    ∃ us' vs', ts = us' ++ vs' ∧ List.Forall₂ R us' us ∧ List.Forall₂ R vs' vs :=
  ⟨_, _, (List.take_append_drop us.length ts).symm, List.forall₂_take_append ts us vs h,
    List.forall₂_drop_append ts us vs h⟩

theorem exists_of_forall₂_concat {R : Token → Token → Prop} {ts us : List Token} {v : Token}
    (h : List.Forall₂ R ts (us ++ [v])) :
    ∃ us' v', ts = us' ++ [v'] ∧ List.Forall₂ R us' us ∧ R v' v := by
  obtain ⟨us', vs', rfl, hus, hvs⟩ := exists_of_forall₂_append h
  obtain ⟨v', rest, hv, hrest, rfl⟩ := List.forall₂_cons_right_iff.mp hvs
  rw [List.forall₂_nil_right_iff.mp hrest]
  exact ⟨us', v', rfl, hus, hv⟩

section Transport

variable {n : Nat}

mutual

/-- Tokens of the same kinds that stand elsewhere spell the same node elsewhere. -/
theorem Spells.transport : ∀ {ts : List Token} {node : Node}, Spells ts node →
    ∀ {ts' : List Token}, List.Forall₂ (Token.ShiftedBy n) ts' ts →
    ∃ node', Spells ts' node' ∧ node'.Like Eq (Span.ShiftedBy n) node
  | _, _, @Spells.literal t value ht, _, .cons ⟨hl, hs⟩ .nil =>
    ⟨_, .literal (hl.trans ht), .literal value hs⟩
  | _, _, @Spells.atom t name ht, _, .cons ⟨hl, hs⟩ .nil => ⟨_, .atom (hl.trans ht), .atom rfl hs⟩
  | _, _, @Spells.reference t sigil name ht, _, .cons ⟨hl, hs⟩ .nil =>
    ⟨_, .reference (hl.trans ht), .reference sigil rfl hs⟩
  | _, _, @Spells.empty t u ht hu, _, .cons ⟨hl, hs⟩ (.cons ⟨hl', hs'⟩ .nil) =>
    ⟨_, .empty (hl.trans ht) (hl'.trans hu), .empty (hs.through hs')⟩
  | _, _, @Spells.marked t marker ts body ht hbody, _, .cons ⟨hl, hs⟩ hrest => by
    obtain ⟨body', hspells, hlike⟩ := hbody.transport hrest
    exact ⟨_, .marked (hl.trans ht) hspells,
      .marked (.refl (fun _ => rfl) marker) hlike (hs.through hlike.span)⟩
  | _, _, @Spells.form t o u operator ts args ht ho hargs hu, _,
      .cons ⟨hl, hs⟩ (.cons ⟨hlo, _⟩ hrest) => by
    obtain ⟨ts', u', rfl, hts', hu'⟩ := exists_of_forall₂_concat hrest
    obtain ⟨args', hspells, hlike⟩ := hargs.transport hts'
    exact ⟨_, .form (hl.trans ht) (hlo.trans ho) hspells (hu'.1.trans hu),
      .form rfl hlike (hs.through hu'.2)⟩
  | _, _, @Spells.list t u ts items ht hitems hu, _, .cons ⟨hl, hs⟩ hrest => by
    obtain ⟨ts', u', rfl, hts', hu'⟩ := exists_of_forall₂_concat hrest
    obtain ⟨items', hspells, hlike⟩ := hitems.transport hts'
    exact ⟨_, .list (hl.trans ht) hspells (hu'.1.trans hu), .list hlike (hs.through hu'.2)⟩

theorem SpellsEach.transport : ∀ {ts : List Token} {nodes : List Node}, SpellsEach ts nodes →
    ∀ {ts' : List Token}, List.Forall₂ (Token.ShiftedBy n) ts' ts →
    ∃ nodes', SpellsEach ts' nodes' ∧ Node.AllLike Eq (Span.ShiftedBy n) nodes' nodes
  | _, _, .nil, _, .nil => ⟨[], .nil, .nil⟩
  | _, _, @SpellsEach.cons ts us node nodes hnode hnodes, _, hrow => by
    obtain ⟨ts', us', rfl, hts', hus'⟩ := exists_of_forall₂_append hrow
    obtain ⟨node', hspells, hlike⟩ := hnode.transport hts'
    obtain ⟨nodes', hspells', hlike'⟩ := hnodes.transport hus'
    exact ⟨_, .cons hspells hspells', .cons hlike hlike'⟩

end

end Transport

/-! ### Nodes and their own text -/

/-- A piece of text whose tokens spell a node is read as that node. -/
theorem exists_parseOne_of_tokens {p q : Position} {piece : List Char} {mid : List Token}
    {node : Node} (htokens : tokensFrom p piece = mid ++ [.endAt q])
    (hspells : Spells (mid.filter (! ·.lexeme.isComment)) node) :
    ∃ read, parseOne (String.ofList piece) = .ok read ∧
      read.Like Eq (Span.ShiftedBy p.offset) node := by
  have hshift := tokensFrom_shifted (n := p.offset) (p := .start) (q := p) rfl piece
  rw [htokens] at hshift
  obtain ⟨mid', ends, htokens', hmid', -⟩ := exists_of_forall₂_append hshift
  have hrun : List.Forall₂ (Token.ShiftedBy p.offset) (mid'.filter (! ·.lexeme.isComment))
      (mid.filter (! ·.lexeme.isComment)) := by
    refine List.rel_filter (fun t t' ht => ?_) hmid'
    show (!t.lexeme.isComment) = true ↔ (!t'.lexeme.isComment) = true
    rw [ht.1]
  obtain ⟨read, hread, hlike⟩ := hspells.transport hrun
  refine ⟨read, ?_, hlike⟩
  -- a single node may be an empty form, which is refused only among the nodes of a whole text
  have hall : Reader.initial.acceptAll .allowed mid' = .ok ⟨none, [], [read]⟩ := by
    rw [← Reader.acceptAll_filter]
    exact Reader.acceptAll_spells .allowed hread .initial rfl (.inl rfl)
  rw [parseOne, mapError_eq_ok_iff, parseFirst, tokenize, String.toList_ofList, htokens']
  exact readFirst_append_of_acceptAll hall rfl rfl ends

/-- Where a node stands that is spelled by some of the tokens of a text: in a piece of the text
that has these tokens, and comments between them. -/
theorem Spells.exists_place {source : String} {body pre run post : List Token} {eof : Token}
    {node : Node} (htokens : tokenize source = body ++ [eof])
    (hsplit : body.filter (! ·.lexeme.isComment) = pre ++ (run ++ post)) (h : Spells run node) :
    ∃ before piece after mid, source.toList = before ++ (piece ++ after) ∧
      node.span.start = (Displacement.behind before).bytes ∧
      node.span.stop = (Displacement.behind (before ++ piece)).bytes ∧
      node.span.line = (Position.start.advance before).line ∧
      node.span.column = (Position.start.advance before).column ∧
      tokensFrom (Position.start.advance before) piece =
        mid ++ [.endAt (Position.start.advance (before ++ piece))] ∧
      mid.filter (! ·.lexeme.isComment) = run := by
  obtain ⟨first, last, hfirst, hlast, hspan⟩ := h.span_eq
  have hrun : run ≠ [] := by
    rintro rfl
    cases hfirst
  obtain ⟨ts, rest, rfl, -, hrest⟩ := List.filter_eq_append_iff.mp hsplit
  obtain ⟨row, us, rfl, hrow, -⟩ := List.filter_eq_append_iff.mp hrest
  -- comments before the first token of the node and behind the last are no part of it
  obtain ⟨ts', mid, us', rfl, hmid, hhead, hend⟩ := exists_trimmed hrow hrun
  have hwhole : tokenize source = (ts ++ ts') ++ (mid ++ (us' ++ us ++ [eof])) := by
    rw [htokens]
    simp
  obtain ⟨before, piece, after, htext, hstart, hstop, hline, hcolumn, hpiece⟩ :=
    exists_piece hwhole (by simp) (hhead.trans hfirst) (hend.trans hlast)
  refine ⟨before, piece, after, mid, htext, ?_, ?_, ?_, ?_, hpiece, hmid⟩
  · rw [hspan]
    exact hstart
  · rw [hspan]
    exact hstop
  · rw [hspan]
    exact hline
  · rw [hspan]
    exact hcolumn

/-- Some of the tokens of a text are in order. -/
theorem inOrder_of_split {source : String} {body pre run post : List Token} {eof : Token}
    (htokens : tokenize source = body ++ [eof])
    (hsplit : body.filter (! ·.lexeme.isComment) = pre ++ (run ++ post)) : InOrder run := by
  have hrun : run.Sublist (body.filter (! ·.lexeme.isComment)) := by
    rw [hsplit]
    exact (List.sublist_append_left run post).trans (List.sublist_append_right pre _)
  have hbody : body.Sublist (tokenize source) := by
    rw [htokens]
    exact List.sublist_append_left body _
  exact (tokenize_inOrder source).sublist ((hrun.trans List.filter_sublist).trans hbody)

/-- The nodes in a node are inside it, in order, and do not overlap. -/
theorem Spells.children_ordered {ts : List Token} {node : Node} (h : Spells ts node)
    (hts : InOrder ts) :
    (∀ child ∈ node.children,
      node.span.start ≤ child.span.start ∧ child.span.stop ≤ node.span.stop) ∧
    node.children.Pairwise fun a b => a.span.stop ≤ b.span.start := by
  obtain ⟨pre, inner, post, hsplit, hinner⟩ := h.exists_children
  have hsub : inner.Sublist ts := by
    rw [hsplit]
    exact (List.sublist_append_left inner post).trans (List.sublist_append_right pre _)
  refine ⟨fun child hchild => ?_, hinner.ordered (hts.sublist hsub)⟩
  obtain ⟨pre', run, post', rfl, hrun⟩ := hinner.exists_run hchild
  refine h.inside hts hrun fun t ht => hsub.subset ?_
  simp [ht]

/-- The places of nodes are true.  Every node that is read from a text, at any depth, covers a
piece of the text, and that piece is read alone as the same node, its parts so many bytes before
where they stand in the text.  The nodes in a node are inside it, in order, and do not overlap.  The
line and the column of a node are those of its first character, and in a text of fewer than `2 ^ 32`
characters they fit into 32 bits. -/
theorem parse_spans_faithful {source : String} {nodes : List Node} (h : parse source = .ok nodes)
    {node : Node} (hnode : Node.Within nodes node) :
    (∃ text read, node.span.text? source.toList = some text ∧
      parseOne (String.ofList text) = .ok read ∧
      read.Like Eq (Span.ShiftedBy node.span.start) node) ∧
    (∀ child ∈ node.children,
      node.span.start ≤ child.span.start ∧ child.span.stop ≤ node.span.stop) ∧
    node.children.Pairwise (fun a b => a.span.stop ≤ b.span.start) ∧
    (∃ before, slice? source.toList 0 node.span.start = some before ∧
      node.span.line = 1 + before.count '\n' ∧
      node.span.column = 1 + (lastLine before).length) ∧
    (source.length < UInt32.size → node.span.Fits) := by
  obtain ⟨body, eof, htokens, hspells⟩ := spellsEach_of_parse h
  obtain ⟨pre, run, post, hsplit, hrun⟩ := hnode.exists_run hspells
  obtain ⟨hinside, hpairs⟩ := hrun.children_ordered (inOrder_of_split htokens hsplit)
  obtain ⟨before, piece, after, mid, htext, hstart, hstop, hline, hcolumn, hpiece, hmid⟩ :=
    hrun.exists_place htokens hsplit
  obtain ⟨read, hread, hlike⟩ := exists_parseOne_of_tokens hpiece (hmid.symm ▸ hrun)
  rw [Position.advance_start_offset, ← hstart] at hlike
  refine ⟨⟨piece, read, ?_, hread, hlike⟩, hinside, hpairs, ⟨before, ?_, ?_, ?_⟩, fun hsize => ?_⟩
  · rw [Span.text?, hstart, hstop, htext]
    exact slice?_append before piece after
  · rw [hstart, htext]
    exact slice?_append [] before (piece ++ after)
  · rw [hline]
    exact Position.advance_start_line before
  · rw [hcolumn]
    exact Position.advance_start_column before
  · obtain ⟨first, last, hfirst, -, hspan⟩ := hrun.span_eq
    have hmem : first ∈ body.filter (! ·.lexeme.isComment) := by
      rw [hsplit]
      simp [List.mem_of_head? hfirst]
    obtain ⟨earlier, later, rfl⟩ := List.append_of_mem (List.mem_filter.mp hmem).1
    rw [List.append_assoc, List.cons_append] at htokens
    rw [hspan]
    exact token_fits_of_ne_nil htokens (by simp) hsize

/-- A list in a form, behind a comment: it stands on the second line, from the eighth byte on. -/
theorem parse_spans_faithful_nested : ∃ nodes node text read,
    parse "<A ;b\n (é 'B)>" = .ok nodes ∧ Node.Within nodes node ∧
      node.span = ⟨7, 14, 2, 2⟩ ∧ node.span.text? "<A ;b\n (é 'B)>".toList = some text ∧
      parseOne (String.ofList text) = .ok read ∧ read.Like Eq (Span.ShiftedBy 7) node := by
  let list : Node := .list [.atom "é" ⟨8, 10, 2, 3⟩,
    .marked .quote (.atom "B" ⟨12, 13, 2, 6⟩) ⟨11, 13, 2, 5⟩] ⟨7, 14, 2, 2⟩
  have hparse : parse "<A ;b\n (é 'B)>" = .ok [.form "A" [list] ⟨0, 15, 1, 1⟩] := by cbv
  have hlist : Node.Within [.form "A" [list] ⟨0, 15, 1, 1⟩] list :=
    .child (.top List.mem_cons_self) List.mem_cons_self
  obtain ⟨⟨text, read, htext, hread, hlike⟩, -⟩ := parse_spans_faithful hparse hlist
  exact ⟨_, list, text, read, hparse, hlist, rfl, htext, hread, hlike⟩

end TextAdventure
