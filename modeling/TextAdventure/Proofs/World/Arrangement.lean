import TextAdventure.Proofs.Play.Naming
import TextAdventure.Proofs.World.Moving

/-!
Worlds that are put together link by link.

Objects with given names are moved, one after another and each once, from nowhere into a container.
The links that were made so far say everything about the tree: who is in what, and in which order a
container lists what it holds.

* `Arranged` — a world has objects with given names, and between them the links made so far;
* `Arranged.move` — moving an object that has no place adds a link in front;
* `Arranged.not_cyclic`, `Arranged.cyclic_of_refused` — the links never form a cycle, and a move
  that is refused would close one.
-/

namespace TextAdventure

open Relation

/-- The handle of the object with a given name, where objects have the given names. -/
def handle? (names : List String) (name : String) : Option ObjectId :=
  (names.idxOf? name).map ObjectId.mk

theorem handle?_eq_none_iff {names : List String} {name : String} :
    handle? names name = none ↔ name ∉ names := by
  rw [handle?, Option.map_eq_none_iff, List.idxOf?_eq_none_iff]

/-- Names have the handles of their positions. -/
theorem getElem?_of_handle? {names : List String} {name : String} {o : ObjectId}
    (h : handle? names name = some o) : names[o.index]? = some name := by
  obtain ⟨i, hi, rfl⟩ := Option.map_eq_some_iff.mp h
  obtain ⟨hlt, hget, -⟩ := List.idxOf?_eq_some_iff.mp hi
  exact List.getElem?_eq_some_iff.mpr ⟨hlt, hget⟩

theorem handle?_inj {names : List String} {name name' : String} {o : ObjectId}
    (h : handle? names name = some o) (h' : handle? names name' = some o) : name = name' :=
  Option.some_inj.mp ((getElem?_of_handle? h).symm.trans (getElem?_of_handle? h'))

theorem exists_handle? {names : List String} {name : String} (h : name ∈ names) :
    ∃ o, handle? names name = some o := by
  rcases ho : handle? names name with _ | o
  · exact absurd h (handle?_eq_none_iff.mp ho)
  · exact ⟨o, rfl⟩

/-- Going from object to container along links leads back to some object. -/
def Cyclic (links : List (ObjectId × ObjectId)) : Prop :=
  ∃ o, TransGen (fun c p => (c, p) ∈ links) o o

theorem Cyclic.mono {links links' : List (ObjectId × ObjectId)} (hsub : links ⊆ links')
    (h : Cyclic links) : Cyclic links' := by
  obtain ⟨o, ho⟩ := h
  exact ⟨o, TransGen.mono (fun _ _ hlink => hsub hlink) _ _ ho⟩

namespace World

/-- A world with objects of the given names.  The links say what is in what, and children are in the
order of their links. -/
structure Arranged (w : World) (names : List String) (links : List (ObjectId × ObjectId)) :
    Prop where
  names_eq : w.names = names
  forest : w.Forest
  parent : ∀ c p, w.parent? c = some p ↔ (c, p) ∈ links
  children : ∀ x, w.children x = (links.filter (·.2 = x)).map (·.1)

namespace Arranged

variable {w : World} {names : List String} {links : List (ObjectId × ObjectId)}
  (h : w.Arranged names links)
include h

theorem lookup? (name : String) : w.lookup? name = handle? names (canonical name) := by
  rw [lookup?_eq_idxOf?, h.names_eq, handle?]

theorem has {name : String} {o : ObjectId} (ho : handle? names name = some o) : w.Has o := by
  obtain ⟨hlt, -⟩ := List.getElem?_eq_some_iff.mp (getElem?_of_handle? ho)
  rw [← h.names_eq, World.names, List.length_map] at hlt
  exact hlt

theorem objectName {name : String} {o : ObjectId} (ho : handle? names name = some o) :
    w.objectName o = name := by
  have hname := getElem?_of_handle? ho
  rw [← h.names_eq, World.names, List.getElem?_map] at hname
  obtain ⟨object, hobject, heq⟩ := Option.map_eq_some_iff.mp hname
  have hfound : w.object? o = some object := hobject
  rw [World.objectName, hfound]
  exact heq

theorem of_objects {w' : World} (hobjects : w'.objects = w.objects) : w'.Arranged names links := by
  have hobject : ∀ x, w'.object? x = w.object? x := by
    intro x
    rw [object?, object?, hobjects]
  constructor
  · rw [← h.names_eq, World.names, hobjects, World.names]
  · exact h.forest.of_objects hobjects
  · intro c p
    rw [parent?, hobject]
    exact h.parent c p
  · intro x
    rw [children_eq, hobject, ← children_eq]
    exact h.children x

/-- A change of an object that leaves its name and its place alone. -/
theorem modifyObject (o : ObjectId) {change : GameObject → GameObject}
    (hname : ∀ object, (change object).name = object.name)
    (hparent : ∀ object, (change object).parent = object.parent)
    (hchildren : ∀ object, (change object).children = object.children) :
    (w.modifyObject o change).Arranged names links where
  names_eq := by
    rw [World.names, map_modifyObject (·.name) w o hname]
    exact h.names_eq
  forest := h.forest.modifyObject o hparent hchildren
  parent c p := by
    rw [parent?_modifyObject w o c change hparent]
    exact h.parent c p
  children x := by
    rw [children_modifyObject w o x change hchildren]
    exact h.children x

theorem ancestor_iff {a x : ObjectId} :
    w.Ancestor a x ↔ TransGen (fun c p => (c, p) ∈ links) x a := by
  rw [Ancestor]
  simp only [h.parent]

theorem not_cyclic : ¬ Cyclic links := by
  rintro ⟨o, ho⟩
  exact h.forest.acyclic o (h.ancestor_iff.mpr ho)

/-- Moving an object that has no place adds a link in front. -/
theorem move {o p : ObjectId} (hroot : ∀ q, (o, q) ∉ links) {w' : World}
    (hmove : w.move o p = .ok w') : w'.Arranged names ((o, p) :: links) := by
  have hnone : w.parent? o = none :=
    Option.eq_none_iff_forall_ne_some.mpr fun q hq => hroot q ((h.parent o q).mp hq)
  obtain ⟨⟨ho, hp, -, -⟩, rfl⟩ := h.forest.move_eq_ok_iff.mp hmove
  have hsame : w.detach o = w := by rw [detach, hnone]
  rw [hsame] at hmove ⊢
  have hnames := (Endures.programChange (.move hmove)).names_eq
  refine ⟨hnames.trans h.names_eq, h.forest.move hmove, fun c q => ?_, fun x => ?_⟩
  · rw [parent?_attach ho, List.mem_cons, Prod.mk.injEq]
    split
    · rename_i heq
      subst heq
      rw [Option.some_inj]
      exact ⟨fun hq => .inl ⟨rfl, hq.symm⟩, fun hq => (hq.resolve_right (hroot q)).2.symm⟩
    · rename_i hne
      rw [h.parent]
      exact ⟨.inr, fun hq => hq.resolve_left fun heq => hne heq.1⟩
  · rw [children_attach hp, h.children, List.filter_cons]
    by_cases hx : x = p
    · simp [hx]
    · simp [hx, Ne.symm hx]

/-- A move is refused because it would close a cycle. -/
theorem cyclic_of_refused {o p : ObjectId} (ho : w.Has o) (hp : w.Has p) {fault : Fault}
    (hmove : w.move o p = .error fault) : Cyclic ((o, p) :: links) := by
  have hlink : (o, p) ∈ (o, p) :: links := List.mem_cons_self
  have hclosed : o = p ∨ w.Ancestor o p := by
    by_contra hnot
    obtain ⟨hne, hnot⟩ := not_or.mp hnot
    rw [h.forest.move_eq_ok_iff.mpr ⟨⟨ho, hp, hne, hnot⟩, rfl⟩] at hmove
    cases hmove
  refine ⟨o, ?_⟩
  rcases hclosed with rfl | habove
  · exact .single hlink
  · -- from `o` over the new link into `p`, and up from there to `o`
    exact .head hlink (TransGen.mono (fun _ _ => List.mem_cons_of_mem _) _ _
      (h.ancestor_iff.mp habove))

end Arranged

/-- Where no object has a place, there are no links. -/
theorem Arranged.of_unplaced {w : World} (hf : w.Forest)
    (hobjects : ∀ object ∈ w.objects, object.parent = none ∧ object.children = []) :
    w.Arranged w.names [] where
  names_eq := rfl
  forest := hf
  parent c p := by
    refine ⟨fun hp => ?_, nofun⟩
    obtain ⟨object, hobject, hparent⟩ := Option.bind_eq_some_iff.mp hp
    rw [(hobjects object (List.mem_of_getElem? hobject)).1] at hparent
    cases hparent
  children x := by
    rw [World.children]
    split
    · rename_i object hobject
      exact (hobjects object (List.mem_of_getElem? hobject)).2
    · rfl

end World

end TextAdventure
