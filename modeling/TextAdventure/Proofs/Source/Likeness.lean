import Mathlib.Data.List.Forall2
import TextAdventure.Source.Node
import TextAdventure.Text.Letter

/-!
Nodes that differ in spelling and place only.

Two nodes are alike when they are built in the same way from the same literals.  The names in
them may differ in spelling, and the nodes in where they stand; which differences are let pass is
a parameter.

* `Node.Like` — likeness of nodes, up to given differences of names and of places;
* `Node.Like.name?`, `Node.Like.atom?`, `Node.Like.kindName` — what the views of a node make of
  it;
* `Node.Like.refl`, `Node.Like.eq` — a node is like itself, and where nothing may differ only like
  itself.
-/

namespace TextAdventure

/-- Likeness of markers: the names of two tags may differ in spelling. -/
inductive Marker.Like (names : String → String → Prop) : Marker → Marker → Prop
  | quote : Like names .quote .quote
  | quasiquote : Like names .quasiquote .quasiquote
  | splice : Like names .splice .splice
  | percent : Like names .percent .percent
  | tag {name name' : String} (hname : names name name') : Like names (.tag name) (.tag name')

theorem Marker.Like.refl {names : String → String → Prop} (hnames : ∀ name, names name name)
    (marker : Marker) : marker.Like names marker := by
  cases marker with
  | quote => exact .quote
  | quasiquote => exact .quasiquote
  | splice => exact .splice
  | percent => exact .percent
  | tag name => exact .tag (hnames name)

/-- Likeness of nodes.  `names` says which spellings of a name may stand for each other, and
`places` which places. -/
inductive Node.Like (names : String → String → Prop) (places : Span → Span → Prop) :
    Node → Node → Prop
  | form {operator operator' : String} {args args' : List Node} {s s' : Span}
      (hoperator : names operator operator')
      (hargs : List.Forall₂ (Node.Like names places) args args') (hs : places s s') :
      Like names places (.form operator args s) (.form operator' args' s')
  | list {items items' : List Node} {s s' : Span}
      (hitems : List.Forall₂ (Node.Like names places) items items') (hs : places s s') :
      Like names places (.list items s) (.list items' s')
  | empty {s s' : Span} (hs : places s s') : Like names places (.empty s) (.empty s')
  | atom {name name' : String} {s s' : Span} (hname : names name name') (hs : places s s') :
      Like names places (.atom name s) (.atom name' s')
  | reference (sigil : Sigil) {name name' : String} {s s' : Span} (hname : names name name')
      (hs : places s s') :
      Like names places (.reference sigil name s) (.reference sigil name' s')
  | literal (value : Literal) {s s' : Span} (hs : places s s') :
      Like names places (.literal value s) (.literal value s')
  | marked {marker marker' : Marker} {body body' : Node} {s s' : Span}
      (hmarker : marker.Like names marker') (hbody : Like names places body body')
      (hs : places s s') :
      Like names places (.marked marker body s) (.marked marker' body' s')

/-- Likeness of nodes, one by one. -/
abbrev Node.AllLike (names : String → String → Prop) (places : Span → Span → Prop) :
    List Node → List Node → Prop :=
  List.Forall₂ (Node.Like names places)

namespace Node.Like

variable {names : String → String → Prop} {places : Span → Span → Prop}

/-- Messages call like nodes the same. -/
theorem kindName {node node' : Node} (h : node.Like names places node') :
    node.kindName = node'.kindName := by
  cases h with
  | marked hmarker _ _ => cases hmarker <;> rfl
  | reference sigil _ _ => cases sigil <;> rfl
  | literal value _ => cases value <;> rfl
  | _ => rfl

theorem span {node node' : Node} (h : node.Like names places node') :
    places node.span node'.span := by
  cases h <;> assumption

theorem atom? {node node' : Node} (h : node.Like names places node') :
    Option.Rel names node.atom? node'.atom? := by
  cases h with
  | atom hname _ => exact .some hname
  | _ => exact .none

theorem name? {node node' : Node} (h : node.Like names places node') :
    Option.Rel names node.name? node'.name? := by
  cases h with
  | atom hname _ => exact .some hname
  | reference _ hname _ => exact .some hname
  | _ => exact .none

theorem items? {node node' : Node} (h : node.Like names places node') :
    Option.Rel (AllLike names places) node.items? node'.items? := by
  cases h with
  | list hitems _ => exact .some hitems
  | _ => exact .none

mutual

/-- A node is like itself, if names and places may stand for themselves. -/
theorem refl (hnames : ∀ name, names name name) (hplaces : ∀ s, places s s) :
    ∀ node : Node, node.Like names places node
  | .form operator args s => .form (hnames operator) (allRefl hnames hplaces args) (hplaces s)
  | .list items s => .list (allRefl hnames hplaces items) (hplaces s)
  | .empty s => .empty (hplaces s)
  | .atom name s => .atom (hnames name) (hplaces s)
  | .reference sigil name s => .reference sigil (hnames name) (hplaces s)
  | .literal value s => .literal value (hplaces s)
  | .marked marker body s => .marked (.refl hnames marker) (refl hnames hplaces body) (hplaces s)

theorem allRefl (hnames : ∀ name, names name name) (hplaces : ∀ s, places s s) :
    ∀ nodes : List Node, AllLike names places nodes nodes
  | [] => .nil
  | node :: nodes => .cons (refl hnames hplaces node) (allRefl hnames hplaces nodes)

end

mutual

/-- Where neither names nor places may differ, like nodes are equal. -/
theorem eq : ∀ {node node' : Node}, node.Like Eq Eq node' → node = node'
  | .form _ _ _, _, .form hoperator hargs hs => by rw [hoperator, allEq hargs, hs]
  | .list _ _, _, .list hitems hs => by rw [allEq hitems, hs]
  | .empty _, _, .empty hs => by rw [hs]
  | .atom _ _, _, .atom hname hs => by rw [hname, hs]
  | .reference _ _ _, _, .reference _ hname hs => by rw [hname, hs]
  | .literal _ _, _, .literal _ hs => by rw [hs]
  | .marked _ _ _, _, .marked hmarker hbody hs => by
    rw [eq hbody, hs]
    cases hmarker with
    | tag hname => rw [hname]
    | _ => rfl

theorem allEq : ∀ {nodes nodes' : List Node}, AllLike Eq Eq nodes nodes' → nodes = nodes'
  | [], _, .nil => rfl
  | _ :: _, _, .cons hnode hnodes => by rw [eq hnode, allEq hnodes]

end

end Node.Like

end TextAdventure
