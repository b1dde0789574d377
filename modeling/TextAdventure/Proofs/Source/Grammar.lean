import Mathlib.Data.List.Basic
import TextAdventure.Source.Reader

/-!
The grammar of source texts.

The grammar is over what tokens are, comments left out.  A node is a leaf, a marker before a node,
the empty form, a form with its operator and any number of nodes, or a list of nodes.

* `Derives` — a sequence of lexemes is a derivation of a node; where the node stands in a text does
  not matter;
* `Node.lexemes` — the lexemes of a node, in order;
* `derives_iff` — the derivation of a node is the sequence of its lexemes;
* `Node.SameTree` — two nodes are equal except for where they stand;
* `Spells` — a row of tokens spells a node, places included;
* `exists_spells` — tokens with the lexemes of a node spell it.
-/

namespace TextAdventure

/-! ### Derivations -/

mutual

/-- A sequence of lexemes is a derivation of a node. -/
inductive Derives : List Lexeme → Node → Prop
  | literal (value : Literal) (span : Span) : Derives [.literal value] (.literal value span)
  | atom (name : String) (span : Span) : Derives [.atom name] (.atom name span)
  | reference (sigil : Sigil) (name : String) (span : Span) :
      Derives [.reference sigil name] (.reference sigil name span)
  | marked (marker : Marker) {word : List Lexeme} {body : Node} (span : Span)
      (hbody : Derives word body) : Derives (.marker marker :: word) (.marked marker body span)
  | empty (span : Span) : Derives [.openForm, .closeForm] (.empty span)
  | form (operator : String) {words : List (List Lexeme)} {args : List Node} (span : Span)
      (hargs : DerivesEach words args) :
      Derives (.openForm :: .atom operator :: (words.flatten ++ [.closeForm]))
        (.form operator args span)
  | list {words : List (List Lexeme)} {items : List Node} (span : Span)
      (hitems : DerivesEach words items) :
      Derives (.openList :: (words.flatten ++ [.closeList])) (.list items span)

/-- Sequences of lexemes are derivations of nodes, one of each. -/
inductive DerivesEach : List (List Lexeme) → List Node → Prop
  | nil : DerivesEach [] []
  | cons {word : List Lexeme} {node : Node} {words : List (List Lexeme)} {nodes : List Node}
      (hnode : Derives word node) (hnodes : DerivesEach words nodes) :
      DerivesEach (word :: words) (node :: nodes)

end

namespace Node

mutual

/-- The lexemes of a node. -/
def lexemes : Node → List Lexeme
  | .form operator args _ => .openForm :: .atom operator :: (lexemesAll args ++ [.closeForm])
  | .list items _ => .openList :: (lexemesAll items ++ [.closeList])
  | .empty _ => [.openForm, .closeForm]
  | .atom name _ => [.atom name]
  | .reference sigil name _ => [.reference sigil name]
  | .literal value _ => [.literal value]
  | .marked marker body _ => .marker marker :: lexemes body

/-- The lexemes of nodes, one node after another. -/
def lexemesAll : List Node → List Lexeme
  | [] => []
  | node :: nodes => lexemes node ++ lexemesAll nodes

end

theorem lexemesAll_eq (nodes : List Node) : lexemesAll nodes = (nodes.map lexemes).flatten := by
  induction nodes with
  | nil => rfl
  | cons node nodes ih => rw [lexemesAll, ih, List.map_cons, List.flatten_cons]

theorem lexemesAll_append (nodes nodes' : List Node) :
    lexemesAll (nodes ++ nodes') = lexemesAll nodes ++ lexemesAll nodes' := by
  rw [lexemesAll_eq, lexemesAll_eq, lexemesAll_eq, List.map_append, List.flatten_append]

theorem lexemesAll_reverse_cons (node : Node) (nodes : List Node) :
    lexemesAll (node :: nodes).reverse = lexemesAll nodes.reverse ++ node.lexemes := by
  rw [List.reverse_cons, lexemesAll_append]
  simp [lexemesAll]

mutual

/-- Comments are part of no node. -/
theorem isComment_of_mem_lexemes : ∀ (node : Node), ∀ l ∈ node.lexemes, l.isComment = false
  | .form operator args span, l, hl => by
    rw [lexemes, List.mem_cons, List.mem_cons, List.mem_append, List.mem_singleton] at hl
    rcases hl with rfl | rfl | hargs | rfl
    · rfl
    · rfl
    · exact isComment_of_mem_lexemesAll args l hargs
    · rfl
  | .list items span, l, hl => by
    rw [lexemes, List.mem_cons, List.mem_append, List.mem_singleton] at hl
    rcases hl with rfl | hitems | rfl
    · rfl
    · exact isComment_of_mem_lexemesAll items l hitems
    · rfl
  | .empty span, l, hl => by
    rw [lexemes, List.mem_cons, List.mem_singleton] at hl
    rcases hl with rfl | rfl <;> rfl
  | .atom name span, l, hl => by
    rw [lexemes, List.mem_singleton] at hl
    rw [hl]
    rfl
  | .reference sigil name span, l, hl => by
    rw [lexemes, List.mem_singleton] at hl
    rw [hl]
    rfl
  | .literal value span, l, hl => by
    rw [lexemes, List.mem_singleton] at hl
    rw [hl]
    rfl
  | .marked marker body span, l, hl => by
    rw [lexemes, List.mem_cons] at hl
    rcases hl with rfl | hbody
    · rfl
    · exact isComment_of_mem_lexemes body l hbody

theorem isComment_of_mem_lexemesAll : ∀ (nodes : List Node), ∀ l ∈ lexemesAll nodes,
    l.isComment = false
  | [], l, hl => nomatch hl
  | node :: nodes, l, hl => by
    rw [lexemesAll, List.mem_append] at hl
    rcases hl with hnode | hnodes
    · exact isComment_of_mem_lexemes node l hnode
    · exact isComment_of_mem_lexemesAll nodes l hnodes

end

end Node

/-! ### A node has one derivation -/

mutual

theorem derives_lexemes : ∀ node : Node, Derives node.lexemes node
  | .form operator args span => by
    rw [Node.lexemes, Node.lexemesAll_eq]
    exact .form operator span (derivesEach_lexemes args)
  | .list items span => by
    rw [Node.lexemes, Node.lexemesAll_eq]
    exact .list span (derivesEach_lexemes items)
  | .empty span => by
    rw [Node.lexemes]
    exact .empty span
  | .atom name span => by
    rw [Node.lexemes]
    exact .atom name span
  | .reference sigil name span => by
    rw [Node.lexemes]
    exact .reference sigil name span
  | .literal value span => by
    rw [Node.lexemes]
    exact .literal value span
  | .marked marker body span => by
    rw [Node.lexemes]
    exact .marked marker span (derives_lexemes body)

theorem derivesEach_lexemes : ∀ nodes : List Node, DerivesEach (nodes.map Node.lexemes) nodes
  | [] => .nil
  | node :: nodes => .cons (derives_lexemes node) (derivesEach_lexemes nodes)

end

mutual

theorem Derives.eq_lexemes {word : List Lexeme} : ∀ {node : Node}, Derives word node →
    word = node.lexemes
  | _, .literal _ _ => by rw [Node.lexemes]
  | _, .atom _ _ => by rw [Node.lexemes]
  | _, .reference _ _ _ => by rw [Node.lexemes]
  | _, .marked _ _ hbody => by rw [Node.lexemes, hbody.eq_lexemes]
  | _, .empty _ => by rw [Node.lexemes]
  | _, .form _ _ hargs => by rw [Node.lexemes, Node.lexemesAll_eq, hargs.eq_lexemes]
  | _, .list _ hitems => by rw [Node.lexemes, Node.lexemesAll_eq, hitems.eq_lexemes]

theorem DerivesEach.eq_lexemes {words : List (List Lexeme)} : ∀ {nodes : List Node},
    DerivesEach words nodes → words = nodes.map Node.lexemes
  | _, .nil => rfl
  | _, .cons hnode hnodes => by rw [List.map_cons, hnode.eq_lexemes, hnodes.eq_lexemes]

end

theorem derives_iff {word : List Lexeme} {node : Node} :
    Derives word node ↔ word = node.lexemes :=
  ⟨Derives.eq_lexemes, fun h => h ▸ derives_lexemes node⟩

theorem derivesEach_iff {words : List (List Lexeme)} {nodes : List Node} :
    DerivesEach words nodes ↔ words = nodes.map Node.lexemes :=
  ⟨DerivesEach.eq_lexemes, fun h => h ▸ derivesEach_lexemes nodes⟩

/-! ### Nodes up to their places -/

namespace Node

mutual

/-- A node without the places of its parts. -/
def bare : Node → Node
  | .form operator args _ => .form operator (bareAll args) default
  | .list items _ => .list (bareAll items) default
  | .empty _ => .empty default
  | .atom name _ => .atom name default
  | .reference sigil name _ => .reference sigil name default
  | .literal value _ => .literal value default
  | .marked marker body _ => .marked marker (bare body) default

/-- Nodes without their places. -/
def bareAll : List Node → List Node
  | [] => []
  | node :: nodes => bare node :: bareAll nodes

end

/-- Two nodes are equal except for where they and their parts stand. -/
def SameTree (node node' : Node) : Prop := node.bare = node'.bare

/-- Nodes are pairwise equal except for where they stand. -/
def SameTrees (nodes nodes' : List Node) : Prop := bareAll nodes = bareAll nodes'

theorem bareAll_eq (nodes : List Node) : bareAll nodes = nodes.map bare := by
  induction nodes with
  | nil => rfl
  | cons node nodes ih => rw [bareAll, ih, List.map_cons]

theorem sameTrees_cons {node node' : Node} {nodes nodes' : List Node}
    (hnode : SameTree node node') (hnodes : SameTrees nodes nodes') :
    SameTrees (node :: nodes) (node' :: nodes') := by
  rw [SameTrees, bareAll, bareAll, hnode, hnodes]

theorem SameTrees.exists_eq_singleton {nodes : List Node} {node : Node}
    (h : SameTrees nodes [node]) : ∃ node', nodes = [node'] ∧ SameTree node' node := by
  rw [SameTrees, bareAll_eq, bareAll_eq] at h
  exact List.map_eq_singleton_iff.mp h

mutual

theorem lexemes_bare : ∀ node : Node, node.bare.lexemes = node.lexemes
  | .form operator args span => by
    rw [bare, lexemes, lexemes, lexemesAll_bareAll args]
  | .list items span => by
    rw [bare, lexemes, lexemes, lexemesAll_bareAll items]
  | .empty span => by rw [bare, lexemes, lexemes]
  | .atom name span => by rw [bare, lexemes, lexemes]
  | .reference sigil name span => by rw [bare, lexemes, lexemes]
  | .literal value span => by rw [bare, lexemes, lexemes]
  | .marked marker body span => by rw [bare, lexemes, lexemes, lexemes_bare body]

theorem lexemesAll_bareAll : ∀ nodes : List Node, lexemesAll (bareAll nodes) = lexemesAll nodes
  | [] => rfl
  | node :: nodes => by
    rw [bareAll, lexemesAll, lexemesAll, lexemes_bare node, lexemesAll_bareAll nodes]

end

theorem SameTree.lexemes_eq {node node' : Node} (h : SameTree node node') :
    node.lexemes = node'.lexemes := by
  rw [← lexemes_bare node, ← lexemes_bare node', h]

theorem SameTrees.map_lexemes_eq {nodes nodes' : List Node} (h : SameTrees nodes nodes') :
    nodes.map lexemes = nodes'.map lexemes := by
  have hlexemes : ∀ ns : List Node, (ns.map bare).map lexemes = ns.map lexemes := by
    intro ns
    rw [List.map_map]
    exact List.map_congr_left fun node _ => lexemes_bare node
  rw [← hlexemes nodes, ← hlexemes nodes', ← bareAll_eq, ← bareAll_eq, h]

/-- The form without operator and arguments. -/
def isEmptyForm : Node → Bool
  | .empty _ => true
  | _ => false

theorem isEmptyForm_bare (node : Node) : node.bare.isEmptyForm = node.isEmptyForm := by
  cases node <;> rw [bare] <;> rfl

theorem SameTrees.isEmptyForm_eq_false {nodes nodes' : List Node} (h : SameTrees nodes nodes')
    (hnodes : ∀ node ∈ nodes, node.isEmptyForm = false) :
    ∀ node ∈ nodes', node.isEmptyForm = false := by
  intro node hnode
  have hbare : node.bare ∈ nodes.map bare := by
    rw [← bareAll_eq, h, bareAll_eq]
    exact List.mem_map_of_mem hnode
  obtain ⟨other, hother, heq⟩ := List.mem_map.mp hbare
  rw [← isEmptyForm_bare, ← heq, isEmptyForm_bare]
  exact hnodes other hother

end Node

/-! ### Nodes and the tokens they stand for -/

mutual

/-- A row of tokens, without comments, spells a node: the node is what the lexemes derive, and it
stands where the tokens do, from the first of them to the last. -/
inductive Spells : List Token → Node → Prop
  | literal {t : Token} {value : Literal} (ht : t.lexeme = .literal value) :
      Spells [t] (.literal value t.span)
  | atom {t : Token} {name : String} (ht : t.lexeme = .atom name) : Spells [t] (.atom name t.span)
  | reference {t : Token} {sigil : Sigil} {name : String} (ht : t.lexeme = .reference sigil name) :
      Spells [t] (.reference sigil name t.span)
  | marked {t : Token} {marker : Marker} {ts : List Token} {body : Node}
      (ht : t.lexeme = .marker marker) (hbody : Spells ts body) :
      Spells (t :: ts) (.marked marker body (t.span.through body.span))
  | empty {t u : Token} (ht : t.lexeme = .openForm) (hu : u.lexeme = .closeForm) :
      Spells [t, u] (.empty (t.span.through u.span))
  | form {t o u : Token} {operator : String} {ts : List Token} {args : List Node}
      (ht : t.lexeme = .openForm) (ho : o.lexeme = .atom operator) (hargs : SpellsEach ts args)
      (hu : u.lexeme = .closeForm) :
      Spells (t :: o :: (ts ++ [u])) (.form operator args (t.span.through u.span))
  | list {t u : Token} {ts : List Token} {items : List Node} (ht : t.lexeme = .openList)
      (hitems : SpellsEach ts items) (hu : u.lexeme = .closeList) :
      Spells (t :: (ts ++ [u])) (.list items (t.span.through u.span))

/-- A row of tokens spells nodes, one after another. -/
inductive SpellsEach : List Token → List Node → Prop
  | nil : SpellsEach [] []
  | cons {ts us : List Token} {node : Node} {nodes : List Node} (hnode : Spells ts node)
      (hnodes : SpellsEach us nodes) : SpellsEach (ts ++ us) (node :: nodes)

end

mutual

/-- Tokens with the lexemes of a node spell that node, wherever they stand. -/
theorem exists_spells : ∀ (node : Node) (ts : List Token), ts.map Token.lexeme = node.lexemes →
    ∃ node', node'.SameTree node ∧ Spells ts node'
  | .literal value span, ts, hts => by
    rw [Node.lexemes] at hts
    obtain ⟨t, rfl, ht⟩ := List.map_eq_singleton_iff.mp hts
    exact ⟨.literal value t.span, by simp only [Node.SameTree, Node.bare], .literal ht⟩
  | .atom name span, ts, hts => by
    rw [Node.lexemes] at hts
    obtain ⟨t, rfl, ht⟩ := List.map_eq_singleton_iff.mp hts
    exact ⟨.atom name t.span, by simp only [Node.SameTree, Node.bare], .atom ht⟩
  | .reference sigil name span, ts, hts => by
    rw [Node.lexemes] at hts
    obtain ⟨t, rfl, ht⟩ := List.map_eq_singleton_iff.mp hts
    exact ⟨.reference sigil name t.span, by simp only [Node.SameTree, Node.bare], .reference ht⟩
  | .marked marker body span, ts, hts => by
    rw [Node.lexemes] at hts
    obtain ⟨t, us, rfl, ht, hus⟩ := List.map_eq_cons_iff.mp hts
    obtain ⟨body', hbody, hspells⟩ := exists_spells body us hus
    refine ⟨.marked marker body' (t.span.through body'.span), ?_, .marked ht hspells⟩
    rw [Node.SameTree, Node.bare, Node.bare, hbody]
  | .empty span, ts, hts => by
    rw [Node.lexemes] at hts
    obtain ⟨t, us, rfl, ht, hus⟩ := List.map_eq_cons_iff.mp hts
    obtain ⟨u, rfl, hu⟩ := List.map_eq_singleton_iff.mp hus
    exact ⟨.empty (t.span.through u.span), by simp only [Node.SameTree, Node.bare], .empty ht hu⟩
  | .form operator args span, ts, hts => by
    rw [Node.lexemes] at hts
    obtain ⟨t, us, rfl, ht, hus⟩ := List.map_eq_cons_iff.mp hts
    obtain ⟨o, vs, rfl, ho, hvs⟩ := List.map_eq_cons_iff.mp hus
    obtain ⟨ws, xs, rfl, hws, hxs⟩ := List.map_eq_append_iff.mp hvs
    obtain ⟨u, rfl, hu⟩ := List.map_eq_singleton_iff.mp hxs
    obtain ⟨args', hargs, hspells⟩ := exists_spellsEach args ws hws
    refine ⟨.form operator args' (t.span.through u.span), ?_, .form ht ho hspells hu⟩
    rw [Node.SameTree, Node.bare, Node.bare, hargs]
  | .list items span, ts, hts => by
    rw [Node.lexemes] at hts
    obtain ⟨t, us, rfl, ht, hus⟩ := List.map_eq_cons_iff.mp hts
    obtain ⟨ws, xs, rfl, hws, hxs⟩ := List.map_eq_append_iff.mp hus
    obtain ⟨u, rfl, hu⟩ := List.map_eq_singleton_iff.mp hxs
    obtain ⟨items', hitems, hspells⟩ := exists_spellsEach items ws hws
    refine ⟨.list items' (t.span.through u.span), ?_, .list ht hspells hu⟩
    rw [Node.SameTree, Node.bare, Node.bare, hitems]

theorem exists_spellsEach : ∀ (nodes : List Node) (ts : List Token),
    ts.map Token.lexeme = Node.lexemesAll nodes →
    ∃ nodes', Node.SameTrees nodes' nodes ∧ SpellsEach ts nodes'
  | [], ts, hts => by
    rw [Node.lexemesAll, List.map_eq_nil_iff] at hts
    subst hts
    exact ⟨[], rfl, .nil⟩
  | node :: nodes, ts, hts => by
    rw [Node.lexemesAll] at hts
    obtain ⟨us, vs, rfl, hus, hvs⟩ := List.map_eq_append_iff.mp hts
    obtain ⟨node', hnode, hspells⟩ := exists_spells node us hus
    obtain ⟨nodes', hnodes, hrest⟩ := exists_spellsEach nodes vs hvs
    exact ⟨node' :: nodes', Node.sameTrees_cons hnode hnodes, .cons hspells hrest⟩

end

end TextAdventure
