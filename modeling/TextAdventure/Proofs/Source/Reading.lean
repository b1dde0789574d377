import TextAdventure.Failure
import TextAdventure.Proofs.Source.Grammar
import TextAdventure.Proofs.Source.Lexing

/-!
Reading accepts exactly the grammar.

The reader takes one token at a time and keeps a stack of open constructs.  At every moment its
state stands for the lexemes it has taken: those of the complete nodes, then those of the open
constructs from the outside in, then a `<` whose operator has not come.

* `Node.Within` — a node is among others or inside them, at any depth;
* `Reader.word` — the lexemes that a state stands for;
* `Reader.Step` — what a token does that is accepted;
* `Reader.word_accept` — one token adds its lexeme to them, and a comment nothing;
* `Reader.acceptAll_spells` — tokens that spell a node make the reader complete that node;
* `sameTrees_of_lexemesAll_eq` — nodes in a row are known from their lexemes;
* `exists_parse_iff`, `exists_parseOne_iff` — what a text is read as, by its lexemes;
* `parse_iff_derivation` — reading a text succeeds exactly on the derivations of the grammar.

Design notes.  `word_accept` gives soundness, `acceptAll_spells` completeness; that derivations are
unique follows from both, since the reader is a function.
-/

namespace TextAdventure

/-! ### Nodes within nodes -/

namespace Node

/-- The nodes right inside a node. -/
def children : Node → List Node
  | .form _ args _ => args
  | .list items _ => items
  | .marked _ body _ => [body]
  | .empty _ | .atom _ _ | .reference _ _ _ | .literal _ _ => []

/-- A node is among some nodes or inside one of them, at any depth. -/
inductive Within (nodes : List Node) : Node → Prop
  | top {node : Node} (h : node ∈ nodes) : Within nodes node
  | child {node child : Node} (h : Within nodes node) (hchild : child ∈ node.children) :
      Within nodes child

end Node

namespace Opened

/-- Where an open construct begins. -/
def start : Opened → Span
  | .form start _ _ | .list start _ | .marker start _ => start

/-- The nodes right inside an open construct so far, last first. -/
def held : Opened → List Node
  | .form _ _ args => args
  | .list _ items => items
  | .marker _ _ => []

end Opened

namespace Reader

/-! ### The lexemes that a state stands for -/

/-- The lexemes of an open construct so far. -/
def openedLexemes : Opened → List Lexeme
  | .form _ operator args => .openForm :: .atom operator :: Node.lexemesAll args.reverse
  | .list _ items => .openList :: Node.lexemesAll items.reverse
  | .marker _ marker => [.marker marker]

/-- The lexemes of open constructs, given innermost first. -/
def openedWord : List Opened → List Lexeme
  | [] => []
  | construct :: rest => openedWord rest ++ openedLexemes construct

/-- The lexemes that a state of reading stands for. -/
def word (r : Reader) : List Lexeme :=
  Node.lexemesAll r.nodes.reverse ++ (openedWord r.opened ++
    match r.angle with
    | some _ => [.openForm]
    | none => [])

theorem word_attach (node : Node) (nodes : List Node) (opened : List Opened) :
    (attach node nodes opened).word =
      Node.lexemesAll nodes.reverse ++ (openedWord opened ++ node.lexemes) := by
  induction opened generalizing node with
  | nil =>
    rw [attach, word, Node.lexemesAll_reverse_cons]
    simp [openedWord]
  | cons construct rest ih =>
    cases construct with
    | form start operator args =>
      rw [attach, word, openedWord, openedWord, openedLexemes, openedLexemes,
        Node.lexemesAll_reverse_cons]
      simp
    | list start items =>
      rw [attach, word, openedWord, openedWord, openedLexemes, openedLexemes,
        Node.lexemesAll_reverse_cons]
      simp
    | marker start marker =>
      rw [attach, ih, openedWord, openedLexemes, Node.lexemes]
      simp

/-- A complete node either goes into an open construct or to the others at top level. -/
theorem attach_cases (node : Node) (nodes : List Node) (opened : List Opened) :
    (attach node nodes opened).nodes = nodes ∨
      ∃ top, attach node nodes opened = ⟨none, [], top :: nodes⟩ ∧
        (top.isEmptyForm = true → opened = [] ∧ node.isEmptyForm = true) := by
  induction opened generalizing node with
  | nil => exact .inr ⟨node, rfl, fun h => ⟨rfl, h⟩⟩
  | cons construct rest ih =>
    cases construct with
    | form start operator args => exact .inl rfl
    | list start items => exact .inl rfl
    | marker start marker =>
      rcases ih (.marked marker node (start.through node.span)) with hsame | ⟨top, htop, hempty⟩
      · exact .inl hsame
      · exact .inr ⟨top, htop, fun h => nomatch (hempty h).2⟩

/-! ### What one token does -/

/-- What a token does that is accepted: nothing, it opens a construct, or it completes a node,
together with the innermost construct or alone. -/
inductive Step (policy : EmptyForms) (t : Token) : Reader → Reader → Prop
  | comment {r : Reader} (ht : t.lexeme.isComment = true) : Step policy t r r
  | openForm {opened : List Opened} {nodes : List Node} (ht : t.lexeme = .openForm) :
      Step policy t ⟨none, opened, nodes⟩ ⟨some t.span, opened, nodes⟩
  | openList {opened : List Opened} {nodes : List Node} (ht : t.lexeme = .openList) :
      Step policy t ⟨none, opened, nodes⟩ ⟨none, .list t.span [] :: opened, nodes⟩
  | marker {opened : List Opened} {nodes : List Node} {mark : Marker} (ht : t.lexeme = .marker mark) :
      Step policy t ⟨none, opened, nodes⟩ ⟨none, .marker t.span mark :: opened, nodes⟩
  | operator {start : Span} {opened : List Opened} {nodes : List Node} {name : String}
      (ht : t.lexeme = .atom name) :
      Step policy t ⟨some start, opened, nodes⟩ ⟨none, .form start name [] :: opened, nodes⟩
  | empty {start : Span} {opened : List Opened} {nodes : List Node} (ht : t.lexeme = .closeForm)
      (hpolicy : policy = .refused → opened ≠ []) :
      Step policy t ⟨some start, opened, nodes⟩ (attach (.empty (start.through t.span)) nodes opened)
  | close {construct : Opened} {rest : List Opened} {nodes : List Node} {node : Node}
      (ht : t.lexeme = .closeForm ∨ t.lexeme = .closeList)
      (hnode : node.lexemes = openedLexemes construct ++ [t.lexeme])
      (hform : node.isEmptyForm = false) (hspan : node.span = construct.start.through t.span)
      (hchildren : ∀ child ∈ node.children, child ∈ construct.held) :
      Step policy t ⟨none, construct :: rest, nodes⟩ (attach node nodes rest)
  | leaf {opened : List Opened} {nodes : List Node} {node : Node} (ht : t.lexeme ≠ .endOfInput)
      (hnode : node.lexemes = [t.lexeme]) (hform : node.isEmptyForm = false)
      (hspan : node.span = t.span) (hchildren : node.children = []) :
      Step policy t ⟨none, opened, nodes⟩ (attach node nodes opened)

theorem step_of_accept {policy : EmptyForms} {r r' : Reader} {t : Token}
    (h : r.accept policy t = .ok r') : Step policy t r r' := by
  obtain ⟨angle, opened, nodes⟩ := r
  rw [accept] at h
  split at h
  · rename_i hcomment
    cases h
    exact .comment hcomment
  rename_i hcomment
  split at h
  -- a `<` stands before the token: it ends the empty form or is the operator of a form.
  · rename_i start hangle
    cases hangle
    rw [acceptOperator] at h
    split at h
    · rename_i ht
      split at h
      · cases h
      · rename_i hpolicy
        cases h
        exact .empty ht fun hrefused hopened => hpolicy ⟨hrefused, hopened⟩
    · rename_i name ht
      cases h
      exact .operator ht
    all_goals cases h
  -- otherwise a node begins here, or the innermost construct ends.
  · rename_i hangle
    cases hangle
    rw [acceptNode] at h
    split at h
    · rename_i ht
      cases h
      exact .openForm ht
    · rename_i ht
      cases h
      exact .openList ht
    · rename_i mark ht
      cases h
      exact .marker ht
    · rename_i ht
      split at h
      · rename_i hopened
        cases h
        cases hopened
        exact .close (.inl ht) (by rw [ht, openedLexemes, Node.lexemes]; simp) rfl rfl
          fun _ => List.mem_reverse.mp
      · cases h
    · rename_i ht
      split at h
      · rename_i hopened
        cases h
        cases hopened
        exact .close (.inr ht) (by rw [ht, openedLexemes, Node.lexemes]; simp) rfl rfl
          fun _ => List.mem_reverse.mp
      · cases h
    · rename_i value ht
      cases h
      exact .leaf (by simp [ht]) (by rw [ht, Node.lexemes]) rfl rfl rfl
    · rename_i name ht
      cases h
      exact .leaf (by simp [ht]) (by rw [ht, Node.lexemes]) rfl rfl rfl
    · rename_i sigil name ht
      cases h
      exact .leaf (by simp [ht]) (by rw [ht, Node.lexemes]) rfl rfl rfl
    · rename_i text ht
      rw [ht] at hcomment
      exact absurd rfl hcomment
    all_goals cases h

/-- Seen from the lexemes that a state stands for: a token that is accepted does nothing, goes on
with what is open, or completes a node.  An empty form at top level is complete only where empty
forms are allowed. -/
theorem accept_cases {policy : EmptyForms} {r r' : Reader} {t : Token}
    (h : r.accept policy t = .ok r') :
    (t.lexeme.isComment = true ∧ r' = r) ∨
    (t.lexeme.isComment = false ∧ t.lexeme ≠ .endOfInput ∧ r'.nodes = r.nodes ∧
      r'.word = r.word ++ [t.lexeme]) ∨
    (t.lexeme.isComment = false ∧ t.lexeme ≠ .endOfInput ∧ ∃ node opened,
      r' = attach node r.nodes opened ∧
      (attach node r.nodes opened).word = r.word ++ [t.lexeme] ∧
      (node.isEmptyForm = true → policy = .refused → opened ≠ [])) := by
  cases step_of_accept h with
  | comment ht => exact .inl ⟨ht, rfl⟩
  | openForm ht =>
    refine .inr (.inl ⟨by rw [ht]; rfl, by simp [ht], rfl, ?_⟩)
    simp [word, ht]
  | openList ht =>
    refine .inr (.inl ⟨by rw [ht]; rfl, by simp [ht], rfl, ?_⟩)
    simp [word, ht, openedWord, openedLexemes, Node.lexemesAll]
  | marker ht =>
    refine .inr (.inl ⟨by rw [ht]; rfl, by simp [ht], rfl, ?_⟩)
    simp [word, ht, openedWord, openedLexemes]
  | operator ht =>
    refine .inr (.inl ⟨by rw [ht]; rfl, by simp [ht], rfl, ?_⟩)
    simp [word, ht, openedWord, openedLexemes, Node.lexemesAll]
  | empty ht hpolicy =>
    refine .inr (.inr ⟨by rw [ht]; rfl, by simp [ht], _, _, rfl, ?_, fun _ => hpolicy⟩)
    rw [word_attach, word, ht, Node.lexemes]
    simp
  | @close construct rest nodes node ht hnode hform =>
    have hkind : t.lexeme.isComment = false ∧ t.lexeme ≠ .endOfInput := by
      rcases ht with ht | ht <;> simp [ht, Lexeme.isComment]
    refine .inr (.inr ⟨hkind.1, hkind.2, node, rest, rfl, ?_, fun h => ?_⟩)
    · rw [word_attach, word, hnode, openedWord]
      simp
    · rw [hform] at h
      cases h
  | @leaf opened nodes node ht hnode hform =>
    have hcomment : t.lexeme.isComment = false :=
      node.isComment_of_mem_lexemes t.lexeme (by simp [hnode])
    refine .inr (.inr ⟨hcomment, ht, node, opened, rfl, ?_, fun h => ?_⟩)
    · rw [word_attach, word, hnode]
      simp
    · rw [hform] at h
      cases h

/-! ### What a run of tokens does -/

/-- Takes tokens in turn, up to the first mistake. -/
def acceptAll (policy : EmptyForms) (r : Reader) : List Token → Except SyntaxError Reader
  | [] => .ok r
  | t :: ts =>
    match r.accept policy t with
    | .ok next => acceptAll policy next ts
    | .error e => .error e

theorem acceptAll_cons_of_ok {policy : EmptyForms} {r next : Reader} {t : Token}
    (h : r.accept policy t = .ok next) (ts : List Token) :
    r.acceptAll policy (t :: ts) = next.acceptAll policy ts := by
  rw [acceptAll, h]

theorem acceptAll_cons_eq_ok {policy : EmptyForms} {r r' : Reader} {t : Token} {ts : List Token}
    (h : r.acceptAll policy (t :: ts) = .ok r') :
    ∃ next, r.accept policy t = .ok next ∧ next.acceptAll policy ts = .ok r' := by
  rw [acceptAll] at h
  split at h
  · rename_i next hnext
    exact ⟨next, hnext, h⟩
  · cases h

theorem acceptAll_append_of_ok {policy : EmptyForms} {r next : Reader} {ts : List Token}
    (h : r.acceptAll policy ts = .ok next) (ts' : List Token) :
    r.acceptAll policy (ts ++ ts') = next.acceptAll policy ts' := by
  induction ts generalizing r with
  | nil =>
    cases h
    rfl
  | cons t ts ih =>
    obtain ⟨mid, hmid, hrest⟩ := acceptAll_cons_eq_ok h
    rw [List.cons_append, acceptAll_cons_of_ok hmid, ih hrest]

end Reader

/-- The lexemes of tokens, comments left out. -/
def significant (ts : List Token) : List Lexeme := (ts.map Token.lexeme).filter (! ·.isComment)

theorem significant_cons (t : Token) (ts : List Token) :
    significant (t :: ts) =
      if t.lexeme.isComment then significant ts else t.lexeme :: significant ts := by
  rw [significant, significant, List.map_cons, List.filter_cons]
  cases t.lexeme.isComment <;> rfl

theorem exists_append_of_prefix_significant {pre : List Lexeme} {ts : List Token}
    (h : pre <+: significant ts) : ∃ ts₁ ts₂, ts = ts₁ ++ ts₂ ∧ significant ts₁ = pre := by
  obtain ⟨post, hpost⟩ := h
  obtain ⟨ls₁, ls₂, hsplit, hpre, -⟩ := List.filter_eq_append_iff.mp hpost.symm
  obtain ⟨ts₁, ts₂, hts, hls₁, -⟩ := List.map_eq_append_iff.mp hsplit
  refine ⟨ts₁, ts₂, hts, ?_⟩
  rw [significant, hls₁, hpre]

namespace Reader

/-- One token adds its lexeme to those a state stands for, and a comment adds nothing. -/
theorem word_accept {policy : EmptyForms} {r r' : Reader} {t : Token}
    (h : r.accept policy t = .ok r') : r'.word = r.word ++ significant [t] := by
  rw [significant_cons, significant, List.map_nil, List.filter_nil]
  rcases accept_cases h with ⟨hcomment, rfl⟩ | ⟨hcomment, -, -, hword⟩ |
    ⟨hcomment, -, node, opened, rfl, hword, -⟩
  · rw [if_pos hcomment, List.append_nil]
  · rw [hcomment, hword]
    rfl
  · rw [hcomment, hword]
    rfl

theorem word_acceptAll {policy : EmptyForms} {r r' : Reader} {ts : List Token}
    (h : r.acceptAll policy ts = .ok r') : r'.word = r.word ++ significant ts := by
  induction ts generalizing r with
  | nil =>
    cases h
    exact (List.append_nil _).symm
  | cons t ts ih =>
    obtain ⟨next, hnext, hrest⟩ := acceptAll_cons_eq_ok h
    rw [ih hrest, word_accept hnext, List.append_assoc]
    simp only [significant, ← List.filter_append, ← List.map_append, List.singleton_append]

/-- Complete nodes stay. -/
theorem nodes_suffix_accept {policy : EmptyForms} {r r' : Reader} {t : Token}
    (h : r.accept policy t = .ok r') : r.nodes <:+ r'.nodes := by
  rcases accept_cases h with ⟨-, rfl⟩ | ⟨-, -, hnodes, -⟩ | ⟨-, -, node, opened, rfl, -, -⟩
  · exact List.suffix_refl _
  · exact ⟨[], hnodes.symm⟩
  · rcases attach_cases node r.nodes opened with hsame | ⟨top, htop, -⟩
    · exact ⟨[], hsame.symm⟩
    · rw [htop]
      exact List.suffix_cons top r.nodes

theorem nodes_suffix_acceptAll {policy : EmptyForms} {r r' : Reader} {ts : List Token}
    (h : r.acceptAll policy ts = .ok r') : r.nodes <:+ r'.nodes := by
  induction ts generalizing r with
  | nil =>
    cases h
    exact List.suffix_refl _
  | cons t ts ih =>
    obtain ⟨next, hnext, hrest⟩ := acceptAll_cons_eq_ok h
    exact (nodes_suffix_accept hnext).trans (ih hrest)

/-- Where empty forms are refused, none is among the complete nodes. -/
theorem noEmptyForm_acceptAll {r r' : Reader} {ts : List Token}
    (h : r.acceptAll .refused ts = .ok r') (hr : ∀ node ∈ r.nodes, node.isEmptyForm = false) :
    ∀ node ∈ r'.nodes, node.isEmptyForm = false := by
  induction ts generalizing r with
  | nil =>
    cases h
    exact hr
  | cons t ts ih =>
    obtain ⟨next, hnext, hrest⟩ := acceptAll_cons_eq_ok h
    refine ih hrest ?_
    rcases accept_cases hnext with ⟨-, rfl⟩ | ⟨-, -, hnodes, -⟩ |
      ⟨-, -, node, opened, rfl, -, hempty⟩
    · exact hr
    · rw [hnodes]
      exact hr
    · rcases attach_cases node r.nodes opened with hsame | ⟨top, htop, hform⟩
      · rw [hsame]
        exact hr
      · rw [htop]
        intro other hother
        rcases List.mem_cons.mp hother with rfl | hold
        · refine Bool.eq_false_iff.mpr fun hotherEmpty => ?_
          obtain ⟨hopened, hnode⟩ := hform hotherEmpty
          exact hempty hnode rfl hopened
        · exact hr other hold

/-- Comments change nothing. -/
theorem acceptAll_filter (policy : EmptyForms) (r : Reader) (ts : List Token) :
    r.acceptAll policy (ts.filter (! ·.lexeme.isComment)) = r.acceptAll policy ts := by
  induction ts generalizing r with
  | nil => rfl
  | cons t ts ih =>
    cases hcomment : t.lexeme.isComment with
    | true =>
      have hsame : r.accept policy t = .ok r := by rw [accept, if_pos hcomment]
      rw [List.filter_cons_of_neg (by simp [hcomment]), ih, acceptAll_cons_of_ok hsame]
    | false =>
      rw [List.filter_cons_of_pos (by simp [hcomment]), acceptAll, acceptAll]
      split
      · exact ih _
      · rfl

/-! ### The lexemes of a node are read as that node -/

/-- States of reading that wait for a node and keep it with those gathered before, last first. -/
structure Gathers (gather : List Node → Reader) : Prop where
  ready : ∀ items, (gather items).angle = none
  attach_eq : ∀ node items,
    attach node (gather items).nodes (gather items).opened = gather (node :: items)

theorem gathers_top : Gathers fun items => ⟨none, [], items⟩ :=
  ⟨fun _ => rfl, fun _ _ => rfl⟩

theorem gathers_form (start : Span) (operator : String) (rest : List Opened) (nodes : List Node) :
    Gathers fun items => ⟨none, .form start operator items :: rest, nodes⟩ :=
  ⟨fun _ => rfl, fun _ _ => rfl⟩

theorem gathers_list (start : Span) (rest : List Opened) (nodes : List Node) :
    Gathers fun items => ⟨none, .list start items :: rest, nodes⟩ :=
  ⟨fun _ => rfl, fun _ _ => rfl⟩

/-- A state lets a node stand where it is: only an empty form at top level can be refused. -/
def Permits (policy : EmptyForms) (r : Reader) (node : Node) : Prop :=
  policy = .allowed ∨ r.opened ≠ [] ∨ node.isEmptyForm = false

theorem accept_of_ready (policy : EmptyForms) {r : Reader} {t : Token} (hr : r.angle = none)
    (ht : t.lexeme.isComment = false) : r.accept policy t = r.acceptNode t := by
  rw [accept, ht, hr]
  rfl

theorem acceptAll_singleton (policy : EmptyForms) {r r' : Reader} {t : Token}
    (hr : r.angle = none) (ht : t.lexeme.isComment = false) (h : r.acceptNode t = .ok r') :
    r.acceptAll policy [t] = .ok r' := by
  rw [acceptAll_cons_of_ok ((accept_of_ready policy hr ht).trans h), acceptAll]

theorem accept_of_angle (policy : EmptyForms) {r : Reader} {t : Token} {start : Span}
    (hr : r.angle = some start) (ht : t.lexeme.isComment = false) :
    r.accept policy t = r.acceptOperator policy start t := by
  rw [accept, ht, hr]
  rfl

mutual

/-- From a state that waits for a node, tokens that spell a node complete it. -/
theorem acceptAll_spells (policy : EmptyForms) : ∀ {ts : List Token} {node : Node},
    Spells ts node → ∀ r : Reader, r.angle = none → Permits policy r node →
    r.acceptAll policy ts = .ok (attach node r.nodes r.opened)
  | _, _, .literal ht, r, hr, _ =>
    acceptAll_singleton policy hr (by rw [ht]; rfl) (by rw [acceptNode, ht])
  | _, _, .atom ht, r, hr, _ =>
    acceptAll_singleton policy hr (by rw [ht]; rfl) (by rw [acceptNode, ht])
  | _, _, .reference ht, r, hr, _ =>
    acceptAll_singleton policy hr (by rw [ht]; rfl) (by rw [acceptNode, ht])
  | _, _, @Spells.marked t marker ts body ht hbody, r, hr, _ => by
    have hstep : r.accept policy t = .ok { r with opened := .marker t.span marker :: r.opened } := by
      rw [accept_of_ready policy hr (by rw [ht]; rfl), acceptNode, ht]
    -- the node under a marker is never at top level, so an empty form may stand there.
    have hread := acceptAll_spells policy hbody
      { r with opened := .marker t.span marker :: r.opened } hr
      (.inr (.inl (List.cons_ne_nil _ _)))
    rw [acceptAll_cons_of_ok hstep, hread, attach]
  | _, _, @Spells.empty t u ht hu, r, hr, hpermits => by
    have hopen : r.accept policy t = .ok { r with angle := some t.span } := by
      rw [accept_of_ready policy hr (by rw [ht]; rfl), acceptNode, ht]
    -- this is the one place where the policy counts
    have hallowed : ¬ (policy = .refused ∧ r.opened = []) := by
      rintro ⟨rfl, hopened⟩
      rcases hpermits with hpolicy | hne | hform
      · cases hpolicy
      · exact hne hopened
      · cases hform
    have hclose : Reader.accept policy { r with angle := some t.span } u =
        .ok (attach (.empty (t.span.through u.span)) r.nodes r.opened) := by
      rw [accept_of_angle policy rfl (by rw [hu]; rfl), acceptOperator, hu]
      exact if_neg hallowed
    rw [acceptAll_cons_of_ok hopen, acceptAll_cons_of_ok hclose, acceptAll]
  | _, _, @Spells.form t o u operator ts args ht ho hargs hu, r, hr, _ => by
    have hopen : r.accept policy t = .ok { r with angle := some t.span } := by
      rw [accept_of_ready policy hr (by rw [ht]; rfl), acceptNode, ht]
    have hoperator : Reader.accept policy { r with angle := some t.span } o =
        .ok ⟨none, .form t.span operator [] :: r.opened, r.nodes⟩ := by
      rw [accept_of_angle policy rfl (by rw [ho]; rfl), acceptOperator, ho]
    -- the arguments are read while the form is open, so empty forms may stand among them.
    have hread := acceptAll_spellsEach policy hargs (gathers_form t.span operator r.opened r.nodes)
      [] (fun _ _ _ => .inr (.inl (List.cons_ne_nil _ _)))
    have hclose : Reader.accept policy
        ⟨none, .form t.span operator (args.reverse ++ []) :: r.opened, r.nodes⟩ u =
        .ok (attach (.form operator args (t.span.through u.span)) r.nodes r.opened) := by
      rw [accept_of_ready policy rfl (by rw [hu]; rfl), acceptNode, hu]
      simp
    rw [acceptAll_cons_of_ok hopen, acceptAll_cons_of_ok hoperator, acceptAll_append_of_ok hread,
      acceptAll_cons_of_ok hclose, acceptAll]
  | _, _, @Spells.list t u ts items ht hitems hu, r, hr, _ => by
    have hopen : r.accept policy t = .ok ⟨none, .list t.span [] :: r.opened, r.nodes⟩ := by
      rw [accept_of_ready policy hr (by rw [ht]; rfl), acceptNode, ht, ← hr]
    have hread := acceptAll_spellsEach policy hitems (gathers_list t.span r.opened r.nodes) []
      (fun _ _ _ => .inr (.inl (List.cons_ne_nil _ _)))
    have hclose : Reader.accept policy
        ⟨none, .list t.span (items.reverse ++ []) :: r.opened, r.nodes⟩ u =
        .ok (attach (.list items (t.span.through u.span)) r.nodes r.opened) := by
      rw [accept_of_ready policy rfl (by rw [hu]; rfl), acceptNode, hu]
      simp
    rw [acceptAll_cons_of_ok hopen, acceptAll_append_of_ok hread, acceptAll_cons_of_ok hclose,
      acceptAll]

/-- The same for nodes in a row, wherever they are gathered. -/
theorem acceptAll_spellsEach (policy : EmptyForms) : ∀ {ts : List Token} {nodes : List Node},
    SpellsEach ts nodes → ∀ {gather : List Node → Reader}, Gathers gather →
    ∀ items : List Node, (∀ node ∈ nodes, ∀ items, Permits policy (gather items) node) →
    (gather items).acceptAll policy ts = .ok (gather (nodes.reverse ++ items))
  | _, _, .nil, _, _, _, _ => rfl
  | _, _, @SpellsEach.cons ts us node nodes hnode hnodes, gather, hgather, items, hpermits => by
    have hread := acceptAll_spells policy hnode (gather items) (hgather.ready items)
      (hpermits node List.mem_cons_self items)
    rw [hgather.attach_eq] at hread
    have hrest := acceptAll_spellsEach policy hnodes hgather (node :: items)
      fun other hother => hpermits other (List.mem_cons_of_mem _ hother)
    rw [acceptAll_append_of_ok hread, hrest, List.reverse_cons, List.append_assoc]
    rfl

end

/-- The same at top level. -/
theorem acceptAll_top {policy : EmptyForms} {nodes : List Node} {ts : List Token}
    (hpolicy : policy = .allowed ∨ ∀ node ∈ nodes, node.isEmptyForm = false)
    (hts : SpellsEach ts nodes) :
    initial.acceptAll policy ts = .ok ⟨none, [], nodes.reverse⟩ := by
  have hpermits : ∀ node ∈ nodes, ∀ items, Permits policy ⟨none, [], items⟩ node := by
    intro node hnode items
    rcases hpolicy with rfl | hform
    · exact .inl rfl
    · exact .inr (.inr (hform node hnode))
  have hread := acceptAll_spellsEach policy hts gathers_top [] hpermits
  rwa [List.append_nil] at hread

/-- At top level, tokens with the lexemes of nodes are read as those nodes, with comments between
the tokens. -/
theorem acceptAll_initial {policy : EmptyForms} {nodes : List Node} {ts : List Token}
    (hpolicy : policy = .allowed ∨ ∀ node ∈ nodes, node.isEmptyForm = false)
    (hts : significant ts = Node.lexemesAll nodes) :
    ∃ nodes', Node.SameTrees nodes' nodes ∧ SpellsEach (ts.filter (! ·.lexeme.isComment)) nodes' ∧
      initial.acceptAll policy ts = .ok ⟨none, [], nodes'.reverse⟩ := by
  have hfilter : (ts.filter (! ·.lexeme.isComment)).map Token.lexeme = Node.lexemesAll nodes := by
    rw [← hts, significant, List.filter_map]
    rfl
  obtain ⟨nodes', hsame, hspells⟩ := exists_spellsEach nodes _ hfilter
  have hback : Node.SameTrees nodes nodes' := hsame.symm
  have hread := acceptAll_top (hpolicy.imp_right hback.isEmptyForm_eq_false) hspells
  rw [acceptAll_filter] at hread
  exact ⟨nodes', hsame, hspells, hread⟩

end Reader

/-- A row of tokens spells one row of nodes. -/
theorem SpellsEach.unique {ts : List Token} {nodes nodes' : List Node} (h : SpellsEach ts nodes)
    (h' : SpellsEach ts nodes') : nodes = nodes' := by
  -- the reader is a function: both rows are what it makes of the tokens.
  have hread := Reader.acceptAll_top (.inl rfl) h
  have hread' := Reader.acceptAll_top (.inl rfl) h'
  injection hread.symm.trans hread' with hstate
  injection hstate with _ _ hnodes
  exact List.reverse_inj.mp hnodes

/-- Nodes in a row are known, up to their places, from their lexemes. -/
theorem sameTrees_of_lexemesAll_eq {nodes nodes' : List Node}
    (h : Node.lexemesAll nodes = Node.lexemesAll nodes') : Node.SameTrees nodes nodes' := by
  let ts : List Token := (Node.lexemesAll nodes).map fun l => ⟨l, default, []⟩
  have hts : ts.map Token.lexeme = Node.lexemesAll nodes := by
    rw [List.map_map]
    exact List.map_id _
  obtain ⟨ns, hns, hspells⟩ := exists_spellsEach nodes ts hts
  obtain ⟨ns', hns', hspells'⟩ := exists_spellsEach nodes' ts (hts.trans h)
  rw [Node.SameTrees, ← hns, ← hns', hspells.unique hspells']

/-! ### The tokens of a text -/

/-- The lexemes of a source text before its end, comments left out. -/
def sourceLexemes (source : String) : List Lexeme :=
  (((tokenize source).map Token.lexeme).takeWhile (· ≠ .endOfInput)).filter (! ·.isComment)

theorem tokenize_eq_append (source : String) :
    ∃ body last, tokenize source = body ++ [last] ∧ last.lexeme = .endOfInput ∧
      (∀ t ∈ body, t.lexeme ≠ .endOfInput) ∧ sourceLexemes source = significant body := by
  obtain ⟨body, last, hbody, hlast, hformed⟩ := tokensFrom_eq_append Position.start source.toList
  have hends : ∀ t ∈ body, t.lexeme ≠ .endOfInput := by
    intro t ht hend
    have h := hformed t ht
    rw [hend] at h
    exact h
  refine ⟨body, last, hbody, hlast, hends, ?_⟩
  have hbefore : ∀ l ∈ body.map Token.lexeme, decide (l ≠ Lexeme.endOfInput) = true := by
    simpa using hends
  rw [sourceLexemes, tokenize, hbody, significant, List.map_append,
    List.takeWhile_append_of_pos hbefore]
  simp [hlast]

/-! ### Reading to the end of the tokens -/

namespace Reader

theorem word_of_isIdle {r : Reader} (h : r.isIdle = true) :
    r.word = Node.lexemesAll r.nodes.reverse := by
  obtain ⟨angle, opened, nodes⟩ := r
  simp only [isIdle, Bool.and_eq_true, Option.isNone_iff_eq_none, List.isEmpty_iff] at h
  obtain ⟨rfl, rfl⟩ := h
  simp [word, openedWord]

theorem accept_ne_ok_of_endOfInput {policy : EmptyForms} {r : Reader} {t : Token}
    (ht : t.lexeme = .endOfInput) (r' : Reader) : r.accept policy t ≠ .ok r' := by
  intro h
  rcases accept_cases h with ⟨hcomment, -⟩ | ⟨-, hend, -⟩ | ⟨-, hend, -⟩
  · rw [ht] at hcomment
    cases hcomment
  · exact hend ht
  · exact hend ht

end Reader

/-- Reading to the end of a text is taking all its tokens, with nothing open at the end. -/
theorem readNodes_eq_ok_iff {body : List Token} {last : Token}
    (hbody : ∀ t ∈ body, t.lexeme ≠ .endOfInput) (hlast : last.lexeme = .endOfInput)
    (r : Reader) (nodes : List Node) :
    readNodes r (body ++ [last]) = .ok nodes ↔
      ∃ r', r.acceptAll .refused body = .ok r' ∧ r'.isIdle = true ∧ r'.nodes.reverse = nodes := by
  induction body generalizing r with
  | nil =>
    rw [List.nil_append, readNodes]
    by_cases hidle : r.isIdle = true
    · rw [if_pos ⟨hlast, hidle⟩]
      constructor
      · intro h
        injection h with h
        exact ⟨r, rfl, hidle, h⟩
      · rintro ⟨r', hr', -, rfl⟩
        cases hr'
        rfl
    -- with something open, the end of the text is a mistake
    · rw [if_neg fun h => hidle h.2]
      constructor
      · intro h
        split at h
        · rename_i next hnext
          exact absurd hnext (Reader.accept_ne_ok_of_endOfInput hlast next)
        · cases h
      · rintro ⟨r', hr', hidle', -⟩
        cases hr'
        exact absurd hidle' hidle
  | cons t ts ih =>
    rw [List.cons_append, readNodes, if_neg fun h => hbody t List.mem_cons_self h.1,
      Reader.acceptAll]
    cases r.accept .refused t with
    | ok next => exact ih (fun u hu => hbody u (List.mem_cons_of_mem _ hu)) next
    | error e =>
      constructor
      · intro h
        cases h
      · rintro ⟨_, h, -⟩
        cases h

/-! ### Reading up to the first node -/

/-- The first node is complete when the state stands for that node alone. -/
theorem readFirst_eq_ok {r : Reader} {ts : List Token} {node : Node}
    (h : readFirst r ts = .ok node) (hr : r.nodes = []) :
    ∃ taken rest, ts = taken ++ rest ∧ r.word ++ significant taken = node.lexemes ∧
      ∀ t ∈ taken, t.lexeme ≠ .endOfInput := by
  induction ts generalizing r with
  | nil => cases h
  | cons t ts ih =>
    rw [readFirst] at h
    split at h
    · cases h
    rename_i next hnext
    have hend : t.lexeme ≠ .endOfInput := by
      intro ht
      exact Reader.accept_ne_ok_of_endOfInput ht next hnext
    split at h
    · rename_i top older hnodes
      cases h
      refine ⟨[t], ts, rfl, ?_, by simpa using hend⟩
      rw [← Reader.word_accept hnext]
      -- only a token that completes a node at top level makes the nodes more
      have hgrown : next.nodes ≠ r.nodes := by
        rw [hnodes, hr]
        exact List.cons_ne_nil _ _
      rcases Reader.accept_cases hnext with ⟨-, rfl⟩ | ⟨-, -, hsame, -⟩ |
        ⟨-, -, inner, opened, rfl, -, -⟩
      · exact absurd rfl hgrown
      · exact absurd hsame hgrown
      · rcases Reader.attach_cases inner r.nodes opened with hsame | ⟨complete, hcomplete, -⟩
        · exact absurd hsame hgrown
        · rw [hcomplete, hr] at hnodes
          cases hnodes
          rw [hcomplete, hr]
          simp [Reader.word, Reader.openedWord, Node.lexemesAll]
    · rename_i hnodes
      obtain ⟨taken, rest, rfl, hword, htaken⟩ := ih h hnodes
      refine ⟨t :: taken, rest, rfl, ?_, ?_⟩
      · rw [← hword, Reader.word_accept hnext, List.append_assoc]
        simp only [significant, ← List.filter_append, ← List.map_append, List.singleton_append]
      · intro u hu
        rcases List.mem_cons.mp hu with rfl | hold
        · exact hend
        · exact htaken u hold

/-- Tokens that complete one node and leave nothing open make it the first node. -/
theorem readFirst_append_of_acceptAll {r r' : Reader} {taken : List Token} {node : Node}
    (h : r.acceptAll .allowed taken = .ok r') (hr : r.nodes = []) (hr' : r'.nodes = [node])
    (rest : List Token) : readFirst r (taken ++ rest) = .ok node := by
  induction taken generalizing r with
  | nil =>
    cases h
    rw [hr] at hr'
    cases hr'
  | cons t ts ih =>
    obtain ⟨next, hnext, hrest⟩ := Reader.acceptAll_cons_eq_ok h
    rw [List.cons_append, readFirst, hnext]
    dsimp only
    -- what is complete after one token is still complete in the end.
    have hsuffix : next.nodes <:+ [node] := hr' ▸ Reader.nodes_suffix_acceptAll hrest
    rcases List.suffix_cons_iff.mp hsuffix with hone | hnone
    · rw [hone]
    · rw [List.suffix_nil.mp hnone]
      exact ih hrest (List.suffix_nil.mp hnone)

/-! ### Reading a source text -/

theorem mapError_eq_ok_iff {ε ε' α : Type} (f : ε → ε') (x : Except ε α) (a : α) :
    x.mapError f = .ok a ↔ x = .ok a := by
  cases x <;> simp [Except.mapError]

/-- A text is read as nodes exactly when its lexemes are theirs and no empty form is at top
level. -/
theorem exists_parse_iff (source : String) (nodes : List Node) :
    (∃ read, parse source = .ok read ∧ Node.SameTrees read nodes) ↔
      Node.lexemesAll nodes = sourceLexemes source ∧
        ∀ node ∈ nodes, node.isEmptyForm = false := by
  obtain ⟨body, last, htokens, hlast, hbody, hlexemes⟩ := tokenize_eq_append source
  simp only [parse, mapError_eq_ok_iff, parseNodes, htokens, hlexemes,
    readNodes_eq_ok_iff hbody hlast]
  constructor
  · rintro ⟨read, ⟨r, hr, hidle, rfl⟩, hsame⟩
    have hword : Node.lexemesAll r.nodes.reverse = significant body := by
      rw [← Reader.word_of_isIdle hidle, Reader.word_acceptAll hr]
      rfl
    have hform : ∀ node ∈ r.nodes.reverse, node.isEmptyForm = false := by
      intro node hnode
      exact Reader.noEmptyForm_acceptAll hr nofun node (List.mem_reverse.mp hnode)
    constructor
    · rw [← hword, Node.lexemesAll_eq, Node.lexemesAll_eq, hsame.map_lexemes_eq]
    · exact hsame.isEmptyForm_eq_false hform
  · rintro ⟨hword, hform⟩
    obtain ⟨read, hsame, -, hread⟩ := Reader.acceptAll_initial (.inr hform) hword.symm
    exact ⟨read, ⟨_, hread, rfl, List.reverse_reverse read⟩, hsame⟩

/-- A text is read as one node exactly when its lexemes begin with those of the node. -/
theorem exists_parseOne_iff (source : String) (node : Node) :
    (∃ read, parseOne source = .ok read ∧ Node.SameTree read node) ↔
      node.lexemes <+: sourceLexemes source := by
  obtain ⟨body, last, htokens, hlast, hbody, hlexemes⟩ := tokenize_eq_append source
  simp only [parseOne, mapError_eq_ok_iff, parseFirst, htokens, hlexemes]
  constructor
  · rintro ⟨read, hread, hsame⟩
    obtain ⟨taken, rest, hsplit, hword, htaken⟩ := readFirst_eq_ok hread rfl
    have hbegins : taken <+: body := by
      rcases List.prefix_concat_iff.mp ⟨rest, hsplit.symm⟩ with hall | hbefore
      · exact absurd hlast (htaken last (by simp [hall]))
      · exact hbefore
    rw [← hsame.lexemes_eq, ← hword]
    exact (hbegins.map Token.lexeme).filter _
  · intro hbegins
    obtain ⟨taken, rest, rfl, hword⟩ := exists_append_of_prefix_significant hbegins
    have hone : significant taken = Node.lexemesAll [node] := by
      rw [hword, Node.lexemesAll, Node.lexemesAll, List.append_nil]
    obtain ⟨nodes, hsames, -, hread⟩ := Reader.acceptAll_initial (.inl rfl) hone
    obtain ⟨read, rfl, hsame⟩ := hsames.exists_eq_singleton
    refine ⟨read, ?_, hsame⟩
    rw [List.append_assoc]
    exact readFirst_append_of_acceptAll hread rfl rfl (rest ++ [last])

/-! ### The grammar -/

/-- The lexemes of a whole text, cut into derivations of nodes of which none is an empty form. -/
structure DerivesText (text : List Lexeme) (words : List (List Lexeme)) (nodes : List Node) :
    Prop where
  derives : DerivesEach words nodes
  flatten_eq : words.flatten = text
  noEmptyForm : ∀ node ∈ nodes, node.isEmptyForm = false

theorem exists_derivesText_iff (text : List Lexeme) (nodes : List Node) :
    (∃ words, DerivesText text words nodes) ↔
      Node.lexemesAll nodes = text ∧ ∀ node ∈ nodes, node.isEmptyForm = false := by
  constructor
  · rintro ⟨words, hderives, hflatten, hform⟩
    refine ⟨?_, hform⟩
    rw [Node.lexemesAll_eq, ← derivesEach_iff.mp hderives, hflatten]
  · rintro ⟨hlexemes, hform⟩
    refine ⟨_, derivesEach_iff.mpr rfl, ?_, hform⟩
    rw [← Node.lexemesAll_eq, hlexemes]

theorem DerivesText.unique {text : List Lexeme} {words words' : List (List Lexeme)}
    {nodes nodes' : List Node} (h : DerivesText text words nodes)
    (h' : DerivesText text words' nodes') : words = words' ∧ Node.SameTrees nodes nodes' := by
  have hwords := derivesEach_iff.mp h.derives
  have hwords' := derivesEach_iff.mp h'.derives
  have hsame : Node.SameTrees nodes nodes' := by
    refine sameTrees_of_lexemesAll_eq ?_
    rw [Node.lexemesAll_eq, ← hwords, h.flatten_eq, Node.lexemesAll_eq, ← hwords', h'.flatten_eq]
  refine ⟨?_, hsame⟩
  rw [hwords, hwords', hsame.map_lexemes_eq]

/-- Reading a text succeeds exactly when its lexemes are derivations of nodes in a row, none of
them an empty form, and yields those nodes; there is at most one such row, and without one reading
fails with a mistake in the text.  Reading one node succeeds exactly when the lexemes begin with a
derivation of it, and at most one node has one. -/
theorem parse_iff_derivation (source : String) :
    (∀ nodes, (∃ read, parse source = .ok read ∧ Node.SameTrees read nodes) ↔
      ∃ words, DerivesText (sourceLexemes source) words nodes) ∧
    (∀ words words' nodes nodes', DerivesText (sourceLexemes source) words nodes →
      DerivesText (sourceLexemes source) words' nodes' →
      words = words' ∧ Node.SameTrees nodes nodes') ∧
    ((¬ ∃ words nodes, DerivesText (sourceLexemes source) words nodes) →
      ∃ e, parse source = .error (Failure.ofSyntaxError source e)) ∧
    (∀ node, (∃ read, parseOne source = .ok read ∧ Node.SameTree read node) ↔
      ∃ word, word <+: sourceLexemes source ∧ Derives word node) ∧
    (∀ word word' node node', word <+: sourceLexemes source → word' <+: sourceLexemes source →
      Derives word node → Derives word' node' → word = word' ∧ Node.SameTree node node') := by
  have hmany : ∀ nodes, (∃ read, parse source = .ok read ∧ Node.SameTrees read nodes) ↔
      ∃ words, DerivesText (sourceLexemes source) words nodes := by
    intro nodes
    rw [exists_parse_iff, exists_derivesText_iff]
  have hone : ∀ node, (∃ read, parseOne source = .ok read ∧ Node.SameTree read node) ↔
      ∃ word, word <+: sourceLexemes source ∧ Derives word node := by
    intro node
    rw [exists_parseOne_iff]
    constructor
    · intro h
      exact ⟨_, h, derives_iff.mpr rfl⟩
    · rintro ⟨word, hword, hderives⟩
      rwa [← derives_iff.mp hderives]
  refine ⟨hmany, fun _ _ _ _ => DerivesText.unique, ?_, hone, ?_⟩
  · intro hnone
    cases hparse : parseNodes source with
    | error e => exact ⟨e, by rw [parse, hparse]; rfl⟩
    | ok read =>
      have hread : parse source = .ok read := by rw [parse, hparse]; rfl
      obtain ⟨words, hwords⟩ := (hmany read).mp ⟨read, hread, rfl⟩
      exact absurd ⟨words, read, hwords⟩ hnone
  · intro word word' node node' hword hword' hderives hderives'
    -- both nodes are the one that reading the text yields.
    obtain ⟨read, hread, hsame⟩ := (hone node).mpr ⟨word, hword, hderives⟩
    obtain ⟨read', hread', hsame'⟩ := (hone node').mpr ⟨word', hword', hderives'⟩
    obtain rfl : read = read' := by
      injection hread.symm.trans hread'
    have hnodes : Node.SameTree node node' := hsame.symm.trans hsame'
    refine ⟨?_, hnodes⟩
    rw [derives_iff.mp hderives, derives_iff.mp hderives', hnodes.lexemes_eq]

end TextAdventure
