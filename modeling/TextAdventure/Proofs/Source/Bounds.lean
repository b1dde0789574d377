import TextAdventure.Proofs.Source.Place
import TextAdventure.Proofs.Source.Tiling

/-!
How far lines and columns go.

A node begins where a token begins, and so does a mistake: with the line and the column of a token
that has been read.  In a text that is not too long those fit into 32 bits, and so do those of every
node and of every mistake in it.

* `Node.Fits` — the lines and columns of a node and of all nodes in it fit;
* `Reader.Fits.accept` — a token that fits keeps what is read so far fitting;
* `fits_of_readRecovering` — so do all tokens of a text, over all its mistakes;
* `parseAllowingErrors_fits` — and a text that is not too long has no others.
-/

namespace TextAdventure

/-! ### Nodes -/

theorem Span.Fits.through {s : Span} (h : s.Fits) (u : Span) : (s.through u).Fits := h

namespace Node

/-- The lines and columns of a node and of all nodes inside it fit into 32 bits. -/
def Fits (node : Node) : Prop := ∀ part, Within [node] part → part.span.Fits

/-- What is inside a node is the node, or inside one of its children. -/
theorem Within.eq_or_child {node part : Node} (h : Within [node] part) :
    part = node ∨ ∃ child ∈ node.children, Within [child] part := by
  induction h with
  | top hmem => exact .inl (List.mem_singleton.mp hmem)
  | child _ hchild ih =>
    rcases ih with rfl | ⟨outer, houter, hwithin⟩
    · exact .inr ⟨_, hchild, .top (List.mem_singleton_self _)⟩
    · exact .inr ⟨outer, houter, hwithin.child hchild⟩

/-- What is inside some nodes is inside one of them. -/
theorem Within.exists_single {nodes : List Node} {part : Node} (h : Within nodes part) :
    ∃ node ∈ nodes, Within [node] part := by
  induction h with
  | top hmem => exact ⟨_, hmem, .top (List.mem_singleton_self _)⟩
  | child _ hchild ih =>
    obtain ⟨node, hnode, hwithin⟩ := ih
    exact ⟨node, hnode, hwithin.child hchild⟩

theorem Fits.of_children {node : Node} (h : node.span.Fits)
    (hchildren : ∀ child ∈ node.children, child.Fits) : node.Fits := by
  intro part hpart
  rcases hpart.eq_or_child with rfl | ⟨child, hchild, hwithin⟩
  · exact h
  · exact hchildren child hchild part hwithin

theorem Fits.span {node : Node} (h : node.Fits) : node.span.Fits :=
  h node (.top (List.mem_singleton_self node))

end Node

/-! ### Reading -/

namespace Reader

/-- What has been read so far fits: where open constructs begin, what they hold, and the nodes. -/
structure Fits (r : Reader) : Prop where
  opened : ∀ s ∈ r.openSpans, s.Fits
  held : ∀ construct ∈ r.opened, ∀ node ∈ construct.held, node.Fits
  nodes : ∀ node ∈ r.nodes, node.Fits

/-- Where nothing is open, only the nodes count. -/
theorem Fits.idle {nodes : List Node} (h : ∀ node ∈ nodes, node.Fits) : Fits ⟨none, [], nodes⟩ :=
  ⟨nofun, nofun, h⟩

theorem Fits.initial : Fits .initial := .idle nofun

/-- Closing what is innermost leaves the rest fitting. -/
theorem Fits.rest {angle : Option Span} {construct : Opened} {rest : List Opened}
    {nodes : List Node} (h : Fits ⟨angle, construct :: rest, nodes⟩) :
    Fits ⟨none, rest, nodes⟩ where
  opened s hs := h.opened s (List.mem_append_right _ (List.mem_cons_of_mem _ hs))
  held c hc := h.held c (List.mem_cons_of_mem _ hc)
  nodes := h.nodes

theorem Fits.start {angle : Option Span} {construct : Opened} {rest : List Opened}
    {nodes : List Node} (h : Fits ⟨angle, construct :: rest, nodes⟩) : construct.start.Fits :=
  h.opened _ (List.mem_append_right _ List.mem_cons_self)

/-- Opening one more construct. -/
theorem Fits.cons {opened : List Opened} {nodes : List Node} (h : Fits ⟨none, opened, nodes⟩)
    {construct : Opened} (hstart : construct.start.Fits)
    (hheld : ∀ node ∈ construct.held, node.Fits) : Fits ⟨none, construct :: opened, nodes⟩ where
  opened := List.forall_mem_cons.mpr ⟨hstart, h.opened⟩
  held := List.forall_mem_cons.mpr ⟨hheld, h.held⟩
  nodes := h.nodes

/-- Behind a `<` that fits. -/
theorem Fits.angle {opened : List Opened} {nodes : List Node} (h : Fits ⟨none, opened, nodes⟩)
    {start : Span} (hstart : start.Fits) : Fits ⟨some start, opened, nodes⟩ where
  opened := List.forall_mem_cons.mpr ⟨hstart, h.opened⟩
  held := h.held
  nodes := h.nodes

theorem Fits.of_angle {start : Span} {opened : List Opened} {nodes : List Node}
    (h : Fits ⟨some start, opened, nodes⟩) : start.Fits ∧ Fits ⟨none, opened, nodes⟩ :=
  ⟨h.opened start List.mem_cons_self,
    fun s hs => h.opened s (List.mem_cons_of_mem _ hs), h.held, h.nodes⟩

theorem Fits.attach {opened : List Opened} {nodes : List Node} (h : Fits ⟨none, opened, nodes⟩)
    {node : Node} (hnode : node.Fits) : (attach node nodes opened).Fits := by
  induction opened generalizing node with
  | nil => exact .idle (List.forall_mem_cons.mpr ⟨hnode, h.nodes⟩)
  | cons construct rest ih =>
    have hheld := h.held construct List.mem_cons_self
    cases construct with
    | form start operator args =>
      exact h.rest.cons h.start (List.forall_mem_cons.mpr ⟨hnode, hheld⟩)
    | list start items => exact h.rest.cons h.start (List.forall_mem_cons.mpr ⟨hnode, hheld⟩)
    | marker start marker =>
      refine ih h.rest (.of_children (h.start.through node.span) fun child hchild => ?_)
      obtain rfl := List.mem_singleton.mp hchild
      exact hnode

/-- A token that fits keeps what is read so far fitting. -/
theorem Fits.accept {policy : EmptyForms} {r next : Reader} {t : Token} (h : r.Fits)
    (ht : t.span.Fits) (hnext : r.accept policy t = .ok next) : next.Fits := by
  cases step_of_accept hnext with
  | comment => exact h
  | openForm => exact h.angle ht
  | openList => exact h.cons ht nofun
  | marker => exact h.cons ht nofun
  | operator =>
    obtain ⟨hstart, hrest⟩ := h.of_angle
    exact hrest.cons hstart nofun
  | empty =>
    obtain ⟨hstart, hrest⟩ := h.of_angle
    exact hrest.attach (.of_children (hstart.through t.span) nofun)
  | @close construct rest nodes node hlexeme hnode hform hspan hchildren =>
    refine h.rest.attach (.of_children ?_ fun child hchild => ?_)
    · rw [hspan]
      exact h.start.through t.span
    · exact h.held construct List.mem_cons_self child (hchildren child hchild)
  | @leaf opened nodes node hlexeme hnode hform hspan hchildren =>
    refine h.attach (.of_children (hspan ▸ ht) ?_)
    rw [hchildren]
    exact nofun

/-- A mistake is at a token, or where something begins that is open. -/
theorem Fits.of_refused {policy : EmptyForms} {r : Reader} {t : Token} {e : SyntaxError}
    (h : r.Fits) (ht : t.span.Fits) (he : r.accept policy t = .error e) : e.span.Fits := by
  rcases span_of_accept_eq_error he with hspan | hopen
  · exact hspan ▸ ht
  · exact h.opened _ hopen

end Reader

/-- Tokens that fit are read as nodes and mistakes that fit. -/
theorem fits_of_readRecovering {r : Reader} {skipping : Bool} {errors : List SyntaxError}
    {ts : List Token} (hr : r.Fits) (herrors : ∀ e ∈ errors, e.span.Fits)
    (hts : ∀ t ∈ ts, t.span.Fits) :
    (∀ node ∈ (readRecovering r skipping errors ts).1, node.Fits) ∧
      ∀ e ∈ (readRecovering r skipping errors ts).2, e.span.Fits := by
  have hdone {r : Reader} {errors : List SyntaxError} (hr : r.Fits)
      (herrors : ∀ e ∈ errors, e.span.Fits) :
      (∀ node ∈ r.nodes.reverse, node.Fits) ∧ ∀ e ∈ errors.reverse, e.span.Fits :=
    ⟨fun node hnode => hr.nodes node (List.mem_reverse.mp hnode),
      fun e he => herrors e (List.mem_reverse.mp he)⟩
  fun_induction readRecovering r skipping errors ts with
  | case1 => exact hdone hr herrors
  | case2 => exact hdone hr herrors
  | case3 r skipping errors t ts hend hskip ih =>
    exact ih hr herrors (List.forall_mem_cons.mp hts).2
  | case4 r skipping errors t ts hend hskip next hnext ih =>
    obtain ⟨ht, hts⟩ := List.forall_mem_cons.mp hts
    exact ih (hr.accept ht hnext) herrors hts
  | case5 r skipping errors t ts hend hskip e he hstart ih =>
    obtain ⟨ht, hts⟩ := List.forall_mem_cons.mp hts
    exact ih ((Reader.Fits.idle hr.nodes).angle ht)
      (List.forall_mem_cons.mpr ⟨hr.of_refused ht he, herrors⟩) hts
  | case6 r skipping errors t ts hend hskip e he hstart ih =>
    obtain ⟨ht, hts⟩ := List.forall_mem_cons.mp hts
    exact ih (.idle hr.nodes) (List.forall_mem_cons.mpr ⟨hr.of_refused ht he, herrors⟩) hts

/-- In a text that is not too long the lines and columns of all nodes and mistakes fit. -/
theorem parseAllowingErrors_fits {source : String} (hsize : source.length + 1 < UInt32.size) :
    (∀ node, Node.Within (parseAllowingErrors source).1 node → node.span.Fits) ∧
      ∀ e ∈ (parseAllowingErrors source).2, e.span.Fits := by
  have hread : (∀ node ∈ (parseAllowingErrors source).1, node.Fits) ∧
      ∀ e ∈ (parseAllowingErrors source).2, e.span.Fits :=
    fits_of_readRecovering Reader.Fits.initial nofun fun t ht => token_fits hsize ht
  obtain ⟨hnodes, herrors⟩ := hread
  refine ⟨fun part hpart => ?_, herrors⟩
  obtain ⟨node, hnode, hwithin⟩ := hpart.exists_single
  exact hnodes node hnode part hwithin

end TextAdventure
