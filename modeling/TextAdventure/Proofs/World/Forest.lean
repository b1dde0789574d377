import Mathlib.Data.Fintype.Card
import Mathlib.Logic.Relation
import TextAdventure.World.Tree

/-!
The objects of a world form a forest.

Parents and children are kept in two places, so that they agree is an invariant, and so is that
no object is inside itself.  The second is what the search for an ancestor relies on: it goes up
at most as often as there are objects.

* `Forest` — the invariant;
* `Forest.climb_lt` — a chain of containers is shorter than the number of objects;
* `Forest.isAncestor_iff` — the bounded search finds an ancestor exactly when there is one;
* `Forest.detach`, `Forest.attach`, `Forest.move` — the tree operations keep the invariant.

Design notes.  Every tree operation is described by what it does to `parent?` and `children`
(`parent?_detach`, `children_attach`, ...), and the invariant is stated in these two alone, so
its proofs never look at the list of objects.
-/

namespace TextAdventure.World

/-- `a` is reached from `x` by one or more parent links. -/
def Ancestor (w : World) (a x : ObjectId) : Prop :=
  Relation.TransGen (fun c p => w.parent? c = some p) x a

/-- The two records of containment agree, no child is listed twice, and no object is inside
itself. -/
structure Forest (w : World) : Prop where
  nodup : ∀ p, (w.children p).Nodup
  mem_children : ∀ c p, c ∈ w.children p ↔ w.parent? c = some p
  acyclic : ∀ o, ¬ w.Ancestor o o

/-- Whether a handle stands for an object of the world. -/
def Has (w : World) (o : ObjectId) : Prop := o.index < w.objects.length

/-! ### Handles in range -/

theorem ObjectId.ext {a b : ObjectId} (h : a.index = b.index) : a = b := by
  cases a
  cases b
  exact congrArg ObjectId.mk h

theorem has_of_object? {w : World} {o : ObjectId} {object : GameObject}
    (h : w.object? o = some object) : w.Has o :=
  (List.getElem?_eq_some_iff.mp h).1

theorem object?_of_has {w : World} {o : ObjectId} (h : w.Has o) :
    ∃ object, w.object? o = some object :=
  ⟨w.objects[o.index], List.getElem?_eq_getElem h⟩

theorem existing_eq_ok {w : World} {o : ObjectId} {object : GameObject}
    (h : w.existing o = .ok object) : w.object? o = some object := by
  rw [existing] at h
  split at h
  · rename_i found hfound
    cases h
    exact hfound
  · cases h

theorem has_of_parent? {w : World} {c p : ObjectId} (h : w.parent? c = some p) : w.Has c := by
  obtain ⟨object, hobject, -⟩ := Option.bind_eq_some_iff.mp h
  exact has_of_object? hobject

theorem has_of_mem_children {w : World} {c p : ObjectId} (h : c ∈ w.children p) : w.Has p := by
  rw [children] at h
  split at h
  · rename_i object hobject
    exact has_of_object? hobject
  · cases h

namespace Forest

variable {w : World}

theorem parent_has (hf : Forest w) {c p : ObjectId} (h : w.parent? c = some p) : w.Has p :=
  has_of_mem_children ((hf.mem_children c p).mpr h)

theorem child_has (hf : Forest w) {c p : ObjectId} (h : c ∈ w.children p) : w.Has c :=
  has_of_parent? ((hf.mem_children c p).mp h)

end Forest

/-! ### Going up -/

/-- The container that is a given number of levels above an object. -/
def climb (w : World) : Nat → ObjectId → Option ObjectId
  | 0, o => some o
  | k + 1, o => (w.parent? o).bind (w.climb k)

theorem climb_add (w : World) (i j : Nat) (o : ObjectId) :
    w.climb (i + j) o = (w.climb i o).bind (w.climb j) := by
  induction i generalizing o with
  | zero => simp [climb]
  | succ i ih =>
    rw [show i + 1 + j = i + j + 1 by omega, climb, climb]
    rcases w.parent? o with _ | p
    · rfl
    · exact ih p

theorem climb_succ (w : World) (k : Nat) (o : ObjectId) :
    w.climb (k + 1) o = (w.climb k o).bind w.parent? := by
  rw [climb_add]
  congr 1
  funext p
  simp [climb]

theorem ancestor_of_climb {w : World} {k : Nat} {a x : ObjectId}
    (h : w.climb (k + 1) x = some a) : w.Ancestor a x := by
  induction k generalizing a with
  | zero => exact .single (by simpa [climb] using h)
  | succ k ih =>
    rw [climb_succ] at h
    obtain ⟨p, hp, ha⟩ := Option.bind_eq_some_iff.mp h
    exact .tail (ih hp) ha

theorem climb_of_ancestor {w : World} {a x : ObjectId} (h : w.Ancestor a x) :
    ∃ k, w.climb (k + 1) x = some a := by
  induction h with
  | single hp => exact ⟨0, by simpa [climb] using hp⟩
  | tail _ hp ih =>
    obtain ⟨k, hk⟩ := ih
    exact ⟨k + 1, by rw [climb_succ, hk]; exact hp⟩

theorem ancestor_iff_climb {w : World} {a x : ObjectId} :
    w.Ancestor a x ↔ ∃ k, w.climb (k + 1) x = some a :=
  ⟨climb_of_ancestor, fun ⟨_, hk⟩ => ancestor_of_climb hk⟩

theorem meetsAbove_iff {w : World} {a : ObjectId} {steps : Nat} {x : ObjectId} :
    w.meetsAbove a steps x = true ↔ ∃ k < steps, w.climb (k + 1) x = some a := by
  induction steps generalizing x with
  | zero => simp [meetsAbove]
  | succ steps ih =>
    rw [meetsAbove]
    split
    · rename_i hnone
      simp [climb, hnone]
    · rename_i p hp
      rw [Bool.or_eq_true, decide_eq_true_eq, ih]
      constructor
      · rintro (rfl | ⟨k, hk, ha⟩)
        · exact ⟨0, by omega, by simp [climb, hp]⟩
        · exact ⟨k + 1, by omega, by rw [climb, hp]; exact ha⟩
      · rintro ⟨k, hk, ha⟩
        rw [climb, hp, Option.bind_some] at ha
        rcases k with _ | k
        · exact .inl (by simpa [climb] using ha)
        · exact .inr ⟨k, by omega, ha⟩

namespace Forest

variable {w : World}

/-- Two different levels above an object hold different containers. -/
theorem climb_ne (hf : Forest w) {x y : ObjectId} {i j : Nat} (hij : i < j)
    (hi : w.climb i x = some y) : w.climb j x ≠ some y := by
  intro hj
  obtain ⟨k, rfl⟩ : ∃ k, j = i + (k + 1) := ⟨j - i - 1, by omega⟩
  rw [climb_add, hi, Option.bind_some] at hj
  exact hf.acyclic y (ancestor_of_climb hj)

theorem climb_has (hf : Forest w) {x y : ObjectId} {k : Nat} (hk : w.climb (k + 1) x = some y) :
    w.Has y := by
  rw [climb_succ] at hk
  obtain ⟨p, -, hp⟩ := Option.bind_eq_some_iff.mp hk
  exact hf.parent_has hp

/-- A chain of containers is shorter than the number of objects: its members are different
objects. -/
theorem climb_lt (hf : Forest w) {x y : ObjectId} {k : Nat} (hk : w.climb (k + 1) x = some y) :
    k + 1 < w.objects.length := by
  have hlevel : ∀ i : Fin (k + 2), ∃ o, w.climb i x = some o ∧ w.Has o := by
    intro ⟨i, hi⟩
    rcases i with _ | i
    · refine ⟨x, rfl, ?_⟩
      obtain ⟨p, hp, -⟩ := Option.bind_eq_some_iff.mp hk
      exact has_of_parent? hp
    · obtain ⟨d, hd⟩ : ∃ d, k + 1 = (i + 1) + d := ⟨k - i, by omega⟩
      rw [hd, climb_add] at hk
      obtain ⟨o, ho, -⟩ := Option.bind_eq_some_iff.mp hk
      exact ⟨o, ho, hf.climb_has ho⟩
  -- level by level the chain names different handles in range, of which there are not more
  choose level hclimb hhas using hlevel
  let place : Fin (k + 2) → Fin w.objects.length := fun i => ⟨(level i).index, hhas i⟩
  have hinj : Function.Injective place := by
    intro i j hij
    have hsame : level i = level j := ObjectId.ext (congrArg Fin.val hij)
    by_contra hne
    rcases Nat.lt_or_gt_of_ne (Fin.val_ne_of_ne hne) with hlt | hlt
    · exact hf.climb_ne hlt (hclimb i) (hsame ▸ hclimb j)
    · exact hf.climb_ne hlt (hclimb j) (hsame ▸ hclimb i)
  have hcard := Fintype.card_le_of_injective place hinj
  rw [Fintype.card_fin, Fintype.card_fin] at hcard
  omega

/-- Going up ends at an object without a container. -/
theorem exists_root (hf : Forest w) (x : ObjectId) :
    ∃ k ≤ w.objects.length, ∃ root, w.climb k x = some root ∧ w.parent? root = none := by
  have hend : ∃ k, w.climb (k + 1) x = none := by
    refine ⟨w.objects.length, Option.eq_none_iff_forall_ne_some.mpr fun y hy => ?_⟩
    have := hf.climb_lt hy
    omega
  -- the root is the last object met before going up leads nowhere
  have hroot : ∀ k, w.climb (k + 1) x = none →
      ∃ j ≤ k, ∃ root, w.climb j x = some root ∧ w.parent? root = none := by
    intro k
    induction k with
    | zero =>
      intro hk
      rw [climb_succ] at hk
      exact ⟨0, le_refl 0, x, rfl, hk⟩
    | succ k ih =>
      intro hk
      rcases hp : w.climb (k + 1) x with _ | root
      · obtain ⟨j, hj, root, hroot, hnone⟩ := ih hp
        exact ⟨j, by omega, root, hroot, hnone⟩
      · rw [climb_succ, hp] at hk
        exact ⟨k + 1, le_refl _, root, hp, hk⟩
  obtain ⟨k, hk⟩ := hend
  obtain ⟨j, -, root, hj, hnone⟩ := hroot k hk
  refine ⟨j, ?_, root, hj, hnone⟩
  rcases j with _ | j
  · exact Nat.zero_le _
  · exact Nat.le_of_lt (hf.climb_lt hj)

/-- Going up more often than there are objects finds nothing new. -/
theorem meetsAbove_iff_ancestor (hf : Forest w) {steps : Nat} (hsteps : w.objects.length ≤ steps)
    (a x : ObjectId) : w.meetsAbove a steps x = true ↔ w.Ancestor a x := by
  rw [meetsAbove_iff, ancestor_iff_climb]
  constructor
  · rintro ⟨k, -, ha⟩
    exact ⟨k, ha⟩
  · rintro ⟨k, ha⟩
    have := hf.climb_lt ha
    exact ⟨k, by omega, ha⟩

theorem isAncestor_iff (hf : Forest w) (a x : ObjectId) :
    w.isAncestor a x = true ↔ w.Ancestor a x :=
  hf.meetsAbove_iff_ancestor (le_refl _) a x

end Forest

/-! ### What the tree operations change -/

theorem object?_modifyObject (w : World) (o x : ObjectId) (change : GameObject → GameObject) :
    (w.modifyObject o change).object? x =
      if x = o then (w.object? x).map change else w.object? x := by
  rw [object?, object?, modifyObject]
  by_cases hx : x = o
  · subst hx
    rw [if_pos rfl]
    exact List.getElem?_modify_eq change x.index w.objects
  · rw [if_neg hx]
    exact List.getElem?_modify_ne change w.objects fun h => hx (ObjectId.ext h.symm)

theorem children_eq (w : World) (x : ObjectId) :
    w.children x = ((w.object? x).map (·.children)).getD [] := by
  rw [children]
  rcases w.object? x with _ | object
  · rfl
  · rfl

/-- A change of an object that keeps its place keeps all parents. -/
theorem parent?_modifyObject (w : World) (o x : ObjectId) (change : GameObject → GameObject)
    (hchange : ∀ object, (change object).parent = object.parent) :
    (w.modifyObject o change).parent? x = w.parent? x := by
  rw [parent?, parent?, object?_modifyObject]
  split
  · rcases w.object? x with _ | object
    · rfl
    · exact hchange object
  · rfl

/-- A change of an object that keeps what it holds keeps all children. -/
theorem children_modifyObject (w : World) (o x : ObjectId) (change : GameObject → GameObject)
    (hchange : ∀ object, (change object).children = object.children) :
    (w.modifyObject o change).children x = w.children x := by
  rw [children_eq, children_eq, object?_modifyObject]
  split
  · rcases w.object? x with _ | object
    · rfl
    · exact hchange object
  · rfl

theorem parent?_detach (w : World) (o x : ObjectId) :
    (w.detach o).parent? x = if x = o then none else w.parent? x := by
  rw [detach]
  split
  · rename_i hnone
    split
    · rename_i heq
      rw [heq, hnone]
    · rfl
  · rw [parent?_modifyObject]
    · rw [parent?, object?_modifyObject]
      split
      · rcases w.object? x with _ | object
        · rfl
        · rfl
      · rfl
    · exact fun _ => rfl

theorem children_detach (w : World) (o q : ObjectId) :
    (w.detach o).children q =
      if w.parent? o = some q then (w.children q).filter (· ≠ o) else w.children q := by
  rw [detach]
  split
  · rename_i hnone
    rw [hnone, if_neg (by simp)]
  · rename_i p hp
    -- clearing the parent of `o` changes no children, so only the second change counts
    have hclear : ∀ y, (w.modifyObject o fun object => { object with parent := none }).children y
        = w.children y := fun y => children_modifyObject w o y _ fun _ => rfl
    by_cases hq : q = p
    · subst hq
      rw [if_pos hp, ← hclear q, children_eq, children_eq, object?_modifyObject, if_pos rfl]
      rcases object? _ q with _ | object
      · rfl
      · rfl
    · rw [hp, if_neg fun h => hq (Option.some_inj.mp h).symm, ← hclear q, children_eq,
        children_eq, object?_modifyObject, if_neg hq]

theorem parent?_attach {w : World} {o : ObjectId} (ho : w.Has o) (container x : ObjectId) :
    (w.attach o container).parent? x = if x = o then some container else w.parent? x := by
  have hlist : ∀ y, (w.modifyObject container fun object =>
      { object with children := o :: object.children }).parent? y = w.parent? y :=
    fun y => parent?_modifyObject w container y _ fun _ => rfl
  rw [attach, ← hlist x, parent?, object?_modifyObject]
  split
  · rename_i heq
    subst heq
    obtain ⟨object, hobject⟩ := object?_of_has ho
    rw [object?_modifyObject, hobject]
    split
    · rfl
    · rfl
  · rfl

theorem children_attach {w : World} {container : ObjectId} (hc : w.Has container)
    (o q : ObjectId) :
    (w.attach o container).children q =
      if q = container then o :: w.children q else w.children q := by
  rw [attach, children_modifyObject]
  · rw [children_eq, children_eq, object?_modifyObject]
    split
    · rename_i heq
      subst heq
      obtain ⟨object, hobject⟩ := object?_of_has hc
      rw [hobject]
      rfl
    · rfl
  · exact fun _ => rfl

/-! ### The tree operations keep the forest -/

/-- Where parents and children are the same, so is everything that makes a forest. -/
theorem Forest.congr {w w' : World} (hparent : ∀ x, w'.parent? x = w.parent? x)
    (hchildren : ∀ x, w'.children x = w.children x) (hf : Forest w) : Forest w' where
  nodup p := by
    rw [hchildren]
    exact hf.nodup p
  mem_children c p := by
    rw [hchildren, hparent]
    exact hf.mem_children c p
  acyclic o := by
    intro h
    simp only [Ancestor, hparent] at h
    exact hf.acyclic o h

/-- Detaching only takes links away. -/
theorem ancestor_of_detach {w : World} {o a x : ObjectId} (h : (w.detach o).Ancestor a x) :
    w.Ancestor a x := by
  have hlink : ∀ c p, (w.detach o).parent? c = some p → w.parent? c = some p := by
    intro c p hcp
    rw [parent?_detach] at hcp
    split at hcp
    · cases hcp
    · exact hcp
  induction h with
  | single hp => exact .single (hlink _ _ hp)
  | tail _ hp ih => exact ih.tail (hlink _ _ hp)

theorem Forest.detach {w : World} (hf : Forest w) (o : ObjectId) : Forest (w.detach o) where
  nodup p := by
    rw [children_detach]
    split
    · exact (hf.nodup p).filter _
    · exact hf.nodup p
  mem_children c p := by
    rw [children_detach, parent?_detach]
    -- `o` has left the one list it was in, and every other child stays in its own
    by_cases hc : c = o
    · subst hc
      rw [if_pos rfl]
      split
      · simp
      · rename_i hne
        rw [hf.mem_children]
        exact ⟨fun h => absurd h hne, nofun⟩
    · rw [if_neg hc]
      split
      · rw [List.mem_filter, hf.mem_children]
        exact ⟨fun h => h.1, fun h => ⟨h, by simpa using hc⟩⟩
      · exact hf.mem_children c p
  acyclic x := by
    intro h
    exact hf.acyclic x (ancestor_of_detach h)

/-- With one link more, from `o` to its new container, a chain of links either was there before
or passes through the new link. -/
theorem ancestor_attach {w : World} {o : ObjectId} (ho : w.Has o) {container a x : ObjectId}
    (h : (w.attach o container).Ancestor a x) :
    w.Ancestor a x ∨ (x = o ∨ w.Ancestor o x) ∧ (a = container ∨ w.Ancestor a container) := by
  induction h with
  | single hp =>
    rw [parent?_attach ho] at hp
    split at hp
    · cases hp
      exact .inr ⟨.inl ‹_›, .inl rfl⟩
    · exact .inl (.single hp)
  | tail _ hp ih =>
    rw [parent?_attach ho] at hp
    split at hp
    · rename_i heq
      subst heq
      cases hp
      rcases ih with hold | ⟨hbelow, -⟩
      · exact .inr ⟨.inr hold, .inl rfl⟩
      · exact .inr ⟨hbelow, .inl rfl⟩
    · rcases ih with hold | ⟨hbelow, rfl | habove⟩
      · exact .inl (hold.tail hp)
      · exact .inr ⟨hbelow, .inr (.single hp)⟩
      · exact .inr ⟨hbelow, .inr (habove.tail hp)⟩

theorem Forest.attach {w : World} (hf : Forest w) {o container : ObjectId} (ho : w.Has o)
    (hc : w.Has container) (hroot : w.parent? o = none) (hne : o ≠ container)
    (hnot : ¬ w.Ancestor o container) : Forest (w.attach o container) where
  nodup p := by
    rw [children_attach hc]
    split
    · refine List.nodup_cons.mpr ⟨fun hmem => ?_, hf.nodup p⟩
      rw [hf.mem_children, hroot] at hmem
      cases hmem
    · exact hf.nodup p
  mem_children c p := by
    rw [children_attach hc, parent?_attach ho]
    by_cases hco : c = o
    · subst hco
      rw [if_pos rfl, Option.some_inj]
      split
      · rename_i heq
        simp [heq]
      · rename_i hpc
        rw [hf.mem_children, hroot]
        exact ⟨nofun, fun h => absurd h.symm hpc⟩
    · rw [if_neg hco]
      split
      · rw [List.mem_cons, hf.mem_children]
        exact ⟨fun h => h.resolve_left hco, .inr⟩
      · exact hf.mem_children c p
  acyclic x := by
    intro h
    -- a cycle through the new link would have `o` above its own container before
    rcases ancestor_attach ho h with hold | ⟨rfl | hbelow, heq | habove⟩
    · exact hf.acyclic x hold
    · exact hne heq
    · exact hnot habove
    · exact hnot (heq ▸ hbelow)
    · exact hnot (habove.trans hbelow)

theorem has_detach {w : World} {o x : ObjectId} : (w.detach o).Has x ↔ w.Has x := by
  rw [World.detach]
  split
  · rfl
  · simp [Has, modifyObject]

/-- What a move that succeeds has checked, and what it then does. -/
theorem move_eq_ok {w w' : World} {o container : ObjectId} (h : w.move o container = .ok w') :
    w.Has o ∧ w.Has container ∧ o ≠ container ∧ w.isAncestor o container = false ∧
      w' = (w.detach o).attach o container := by
  rw [move] at h
  rcases ho : w.existing o with _ | object
  · rw [ho] at h
    cases h
  rcases hc : w.existing container with _ | target
  · rw [ho, hc] at h
    cases h
  rw [ho, hc] at h
  by_cases hcycle : o = container ∨ w.isAncestor o container
  · simp only [bind, Except.bind, if_pos hcycle] at h
    cases h
  · simp only [bind, Except.bind, if_neg hcycle] at h
    cases h
    obtain ⟨hne, hnot⟩ := not_or.mp hcycle
    exact ⟨has_of_object? (existing_eq_ok ho), has_of_object? (existing_eq_ok hc), hne,
      by simpa using hnot, rfl⟩

theorem Forest.move {w w' : World} (hf : Forest w) {o container : ObjectId}
    (h : w.move o container = .ok w') : Forest w' := by
  obtain ⟨ho, hc, hne, hnot, rfl⟩ := move_eq_ok h
  have hnotAncestor : ¬ w.Ancestor o container := by
    rw [← hf.isAncestor_iff, hnot]
    exact Bool.false_ne_true
  refine (hf.detach o).attach (has_detach.mpr ho) (has_detach.mpr hc) ?_ hne fun hcon => ?_
  · rw [parent?_detach, if_pos rfl]
  · exact hnotAncestor (ancestor_of_detach hcon)

theorem Forest.remove {w w' : World} (hf : Forest w) {o : ObjectId} (h : w.remove o = .ok w') :
    Forest w' := by
  rw [World.remove] at h
  rcases ho : w.existing o with _ | object
  · rw [ho] at h
    cases h
  · rw [ho] at h
    cases h
    exact hf.detach o

end TextAdventure.World
