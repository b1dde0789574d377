import TextAdventure.Proofs.Program.Extent
import TextAdventure.Proofs.World.Change

/-!
What moving and removing do.

A move takes an object out of the container it was in and puts it in front of what its new
container holds.  It takes all that is inside the object along, and nothing else in the world
changes.

* `MovedInto`, `TakenOut` — the exact effect of a move and of a removal;
* `Forest.move_eq_ok_iff`, `remove_eq_ok_iff` — when they succeed;
* `Forest.ancestor_moved`, `Forest.ancestor_detach` — what is above an object that was taken along;
* `Forest.move_remove_exact` — in a forest, moving and removing do this and nothing else.

Design notes.  The old and the new container may be the same.  So the list of the new container is
described by the old list without the object, which is the old list itself unless they are.
-/

namespace TextAdventure

/-! ### Everything but places -/

/-- An object without its place in the tree. -/
def GameObject.unplaced (object : GameObject) : GameObject :=
  { object with parent := none, children := [] }

namespace World

/-- A world in which no object has a place. -/
def unplaced (w : World) : World := { w with objects := w.objects.map GameObject.unplaced }

/-- What a change keeps of every object it keeps of all of them. -/
theorem map_modifyObject {α : Type} (f : GameObject → α) (w : World) (o : ObjectId)
    {change : GameObject → GameObject} (h : ∀ object, f (change object) = f object) :
    (w.modifyObject o change).objects.map f = w.objects.map f := by
  refine List.ext_getElem? fun i => ?_
  rw [modifyObject, List.getElem?_map, List.getElem?_map, List.getElem?_modify]
  rcases w.objects[i]? with _ | object
  · rfl
  · by_cases hi : o.index = i
    · simp [hi, h]
    · simp [hi]

/-- A change of an object's place leaves everything else alone. -/
theorem unplaced_modifyObject (w : World) (o : ObjectId) {change : GameObject → GameObject}
    (h : ∀ object, (change object).unplaced = object.unplaced) :
    (w.modifyObject o change).unplaced = w.unplaced := by
  rw [unplaced, map_modifyObject GameObject.unplaced w o h]
  rfl

theorem unplaced_detach (w : World) (o : ObjectId) : (w.detach o).unplaced = w.unplaced := by
  rw [detach]
  split
  · rfl
  · rw [unplaced_modifyObject, unplaced_modifyObject]
    · exact fun _ => rfl
    · exact fun _ => rfl

theorem unplaced_attach (w : World) (o container : ObjectId) :
    (w.attach o container).unplaced = w.unplaced := by
  rw [attach, unplaced_modifyObject, unplaced_modifyObject]
  · exact fun _ => rfl
  · exact fun _ => rfl

/-! ### What is inside an object -/

/-- `x` is `o`, or inside it at any depth. -/
def Within (w : World) (o x : ObjectId) : Prop := x = o ∨ w.Ancestor o x

theorem Within.of_parent {w : World} {o x p : ObjectId} (hp : w.parent? x = some p)
    (h : w.Within o p) : w.Within o x := by
  rcases h with rfl | habove
  · exact .inr (.single hp)
  · exact .inr (.head hp habove)

/-- Going up from inside an object ends at the object. -/
theorem Within.parent {w : World} {o x p : ObjectId} (h : w.Within o x) (hne : x ≠ o)
    (hp : w.parent? x = some p) : w.Within o p := by
  obtain ⟨q, hq, hrest⟩ := Relation.TransGen.head'_iff.mp (h.resolve_left hne)
  have hpq : p = q := Option.some_inj.mp (hp.symm.trans hq)
  subst hpq
  rcases Relation.reflTransGen_iff_eq_or_transGen.mp hrest with heq | habove
  · exact .inl heq.symm
  · exact .inr habove

/-- A link that does not begin at `o` survives when `o` is taken out. -/
theorem parent?_detach_of_ne {w : World} {o x p : ObjectId} (hne : x ≠ o)
    (hp : w.parent? x = some p) : (w.detach o).parent? x = some p := by
  rw [parent?_detach, if_neg hne]
  exact hp

namespace Forest

variable {w : World} (hf : Forest w)
include hf

/-- What holds an object is not inside it. -/
theorem not_within_parent {o p : ObjectId} (hp : w.parent? o = some p) : ¬ w.Within o p := by
  rintro (rfl | habove)
  · exact hf.acyclic p (.single hp)
  · exact hf.acyclic o (.head hp habove)

/-- Above what is inside an object that was taken out there is what was above it up to the
object, and nothing more. -/
theorem ancestor_detach {o x : ObjectId} (hx : w.Within o x) (a : ObjectId) :
    (w.detach o).Ancestor a x ↔ w.Ancestor a x ∧ w.Within o a := by
  constructor
  · intro h
    refine ⟨ancestor_of_detach h, ?_⟩
    -- a chain that leads out of `o` would have to go on from `o` itself
    induction h with
    | single hp =>
      rw [parent?_detach] at hp
      split at hp
      · cases hp
      · exact hx.parent ‹_› hp
    | tail _ hp ih =>
      rw [parent?_detach] at hp
      split at hp
      · cases hp
      · exact ih.parent ‹_› hp
  · rintro ⟨h, ha⟩
    induction h with
    | single hp =>
      refine .single (parent?_detach_of_ne ?_ hp)
      rintro rfl
      exact hf.not_within_parent hp ha
    | tail _ hp ih =>
      refine .tail (ih (ha.of_parent hp)) (parent?_detach_of_ne ?_ hp)
      rintro rfl
      exact hf.not_within_parent hp ha

omit hf in
/-- Outside an object that was taken out, all is as it was. -/
theorem ancestor_detach_of_not_within {o x : ObjectId} (hx : ¬ w.Within o x) (a : ObjectId) :
    (w.detach o).Ancestor a x ↔ w.Ancestor a x := by
  refine ⟨ancestor_of_detach, fun h => ?_⟩
  -- no container of `x` is `o`, so every link of the chain survives
  induction h using Relation.TransGen.head_induction_on with
  | single hp => exact .single (parent?_detach_of_ne (fun heq => hx (.inl heq)) hp)
  | head hp _ ih =>
    refine .head (parent?_detach_of_ne (fun heq => hx (.inl heq)) hp) (ih fun hin => ?_)
    exact hx (hin.of_parent hp)

end Forest

/-- A new link takes no link away. -/
theorem ancestor_attach_of_ancestor {w : World} {o container a x : ObjectId} (ho : w.Has o)
    (hroot : w.parent? o = none) (h : w.Ancestor a x) : (w.attach o container).Ancestor a x := by
  have hlink : ∀ c p, w.parent? c = some p → (w.attach o container).parent? c = some p := by
    intro c p hcp
    rw [parent?_attach ho, if_neg]
    · exact hcp
    · rintro rfl
      rw [hroot] at hcp
      cases hcp
  exact Relation.TransGen.mono hlink _ _ h

section Moved

variable {w : World} (hf : Forest w) {o p : ObjectId} (ho : w.Has o) (hnot : ¬ w.Within o p)
include hf ho hnot

/-- Above what is inside an object that was moved there is what was above it up to the object,
and then the new container with all that is above that. -/
theorem Forest.ancestor_moved {x : ObjectId} (hx : w.Within o x) (a : ObjectId) :
    ((w.detach o).attach o p).Ancestor a x ↔
      w.Ancestor a x ∧ w.Within o a ∨ a = p ∨ w.Ancestor a p := by
  have hhas : (w.detach o).Has o := has_detach.mpr ho
  have hroot : (w.detach o).parent? o = none := by rw [parent?_detach, if_pos rfl]
  have hinside : (w.detach o).Within o x := by
    refine hx.imp_right fun h => (hf.ancestor_detach hx o).mpr ⟨h, .inl rfl⟩
  constructor
  · intro h
    rcases ancestor_attach hhas h with hold | ⟨-, habove⟩
    · exact .inl ((hf.ancestor_detach hx a).mp hold)
    · exact .inr (habove.imp_right (ancestor_detach_of_not_within hnot a).mp)
  · rintro (hold | habove)
    · exact ancestor_attach_of_ancestor hhas hroot ((hf.ancestor_detach hx a).mpr hold)
    · have hlink : ((w.detach o).attach o p).parent? o = some p := by
        rw [parent?_attach hhas, if_pos rfl]
      -- up to `o`, over the new link, and on from the container
      have hcontainer : ((w.detach o).attach o p).Ancestor p x := by
        rcases hinside with rfl | hup
        · exact .single hlink
        · exact .tail (ancestor_attach_of_ancestor hhas hroot hup) hlink
      rcases habove with rfl | habove
      · exact hcontainer
      · exact .trans hcontainer (ancestor_attach_of_ancestor hhas hroot
          ((ancestor_detach_of_not_within hnot a).mpr habove))

end Moved

/-! ### The effect of moving and removing -/

/-- What a move changes, and what it does not. -/
structure MovedInto (w : World) (o p : ObjectId) (w' : World) : Prop where
  parent : w'.parent? o = some p
  children : w'.children p = o :: (w.children p).filter (· ≠ o)
  former : ∀ q, w.parent? o = some q → q ≠ p → w'.children q = (w.children q).filter (· ≠ o)
  otherParents : ∀ x, x ≠ o → w'.parent? x = w.parent? x
  otherChildren : ∀ x, x ≠ p → w.parent? o ≠ some x → w'.children x = w.children x
  inside : ∀ x, w'.Ancestor o x ↔ w.Ancestor o x
  above : ∀ x, w.Within o x → ∀ a,
    (w'.Ancestor a x ↔ w.Ancestor a x ∧ w.Within o a ∨ a = p ∨ w.Ancestor a p)
  unplaced : w'.unplaced = w.unplaced

/-- What a removal changes, and what it does not. -/
structure TakenOut (w : World) (o : ObjectId) (w' : World) : Prop where
  parent : w'.parent? o = none
  former : ∀ q, w.parent? o = some q → w'.children q = (w.children q).filter (· ≠ o)
  otherParents : ∀ x, x ≠ o → w'.parent? x = w.parent? x
  otherChildren : ∀ x, w.parent? o ≠ some x → w'.children x = w.children x
  inside : ∀ x, w'.Ancestor o x ↔ w.Ancestor o x
  above : ∀ x, w.Within o x → ∀ a, (w'.Ancestor a x ↔ w.Ancestor a x ∧ w.Within o a)
  unplaced : w'.unplaced = w.unplaced

theorem Forest.takenOut {w : World} (hf : Forest w) (o : ObjectId) :
    w.TakenOut o (w.detach o) where
  parent := by rw [parent?_detach, if_pos rfl]
  former q hq := by rw [children_detach, if_pos hq]
  otherParents x hx := by rw [parent?_detach, if_neg hx]
  otherChildren x hx := by rw [children_detach, if_neg hx]
  inside x := by
    refine ⟨ancestor_of_detach, fun h => ?_⟩
    exact (hf.ancestor_detach (.inr h) o).mpr ⟨h, .inl rfl⟩
  above x hx a := hf.ancestor_detach hx a
  unplaced := unplaced_detach w o

theorem Forest.movedInto {w : World} (hf : Forest w) {o p : ObjectId} (ho : w.Has o)
    (hp : w.Has p) (hnot : ¬ w.Within o p) : w.MovedInto o p ((w.detach o).attach o p) where
  parent := by rw [parent?_attach (has_detach.mpr ho), if_pos rfl]
  children := by
    rw [children_attach (has_detach.mpr hp), if_pos rfl, children_detach]
    split
    · rfl
    · rename_i hother
      -- `o` was not among them, so nothing is left out
      rw [List.filter_eq_self.mpr]
      intro c hc
      rw [decide_eq_true_eq]
      rintro rfl
      exact hother ((hf.mem_children c p).mp hc)
  former q hq hne := by
    rw [children_attach (has_detach.mpr hp), if_neg hne, children_detach, if_pos hq]
  otherParents x hx := by
    rw [parent?_attach (has_detach.mpr ho), if_neg hx, parent?_detach, if_neg hx]
  otherChildren x hx hformer := by
    rw [children_attach (has_detach.mpr hp), if_neg hx, children_detach, if_neg hformer]
  inside x := by
    constructor
    · intro h
      rcases ancestor_attach (has_detach.mpr ho) h with hold | ⟨-, heq | habove⟩
      · exact ancestor_of_detach hold
      · exact absurd (.inl heq.symm) hnot
      · exact absurd (.inr (ancestor_of_detach habove)) hnot
    · intro h
      exact (hf.ancestor_moved ho hnot (.inr h) o).mpr (.inl ⟨h, .inl rfl⟩)
  above x hx a := hf.ancestor_moved ho hnot hx a
  unplaced := by rw [unplaced_attach, unplaced_detach]

/-- When a move succeeds, and what it does then. -/
theorem Forest.move_eq_ok_iff {w : World} (hf : Forest w) {o p : ObjectId} {w' : World} :
    w.move o p = .ok w' ↔
      (w.Has o ∧ w.Has p ∧ o ≠ p ∧ ¬ w.Ancestor o p) ∧ w' = (w.detach o).attach o p := by
  constructor
  · intro h
    obtain ⟨ho, hp, hne, hnot, rfl⟩ := move_eq_ok h
    refine ⟨⟨ho, hp, hne, fun habove => ?_⟩, rfl⟩
    rw [(hf.isAncestor_iff o p).mpr habove] at hnot
    cases hnot
  · rintro ⟨⟨ho, hp, hne, hnot⟩, rfl⟩
    obtain ⟨object, hobject⟩ := existing_of_has ho
    obtain ⟨container, hcontainer⟩ := existing_of_has hp
    have hcheck : ¬ (o = p ∨ w.isAncestor o p = true) := by
      rw [hf.isAncestor_iff]
      exact not_or.mpr ⟨hne, hnot⟩
    simp only [World.move, hobject, hcontainer, bind, Except.bind, if_neg hcheck]
    rfl

/-- When a removal succeeds, and what it does then. -/
theorem remove_eq_ok_iff {w : World} {o : ObjectId} {w' : World} :
    w.remove o = .ok w' ↔ w.Has o ∧ w' = w.detach o := by
  constructor
  · intro h
    rw [remove] at h
    rcases ho : w.existing o with _ | object
    · rw [ho] at h
      cases h
    · rw [ho] at h
      cases h
      exact ⟨has_of_object? (existing_eq_ok ho), rfl⟩
  · rintro ⟨ho, rfl⟩
    obtain ⟨object, hobject⟩ := existing_of_has ho
    rw [remove, hobject]
    rfl

/-- In a forest, an object can be moved into another exactly when both exist and it is neither the
other nor around it, and removed exactly when it exists; and both then have their exact effect. -/
theorem Forest.move_remove_exact {w : World} (hf : Forest w) (o p : ObjectId) :
    ((∃ w', w.move o p = .ok w') ↔ w.Has o ∧ w.Has p ∧ o ≠ p ∧ ¬ w.Ancestor o p) ∧
    (∀ w', w.move o p = .ok w' → w.MovedInto o p w') ∧
    ((∃ w', w.remove o = .ok w') ↔ w.Has o) ∧
    ∀ w', w.remove o = .ok w' → w.TakenOut o w' := by
  refine ⟨?_, fun w' h => ?_, ?_, fun w' h => ?_⟩
  · simp only [hf.move_eq_ok_iff, exists_and_left, exists_eq, and_true]
  · obtain ⟨⟨ho, hp, hne, hnot⟩, rfl⟩ := hf.move_eq_ok_iff.mp h
    refine hf.movedInto ho hp ?_
    rintro (heq | habove)
    · exact hne heq.symm
    · exact hnot habove
  · simp only [remove_eq_ok_iff, exists_and_left, exists_eq, and_true]
  · obtain ⟨-, rfl⟩ := remove_eq_ok_iff.mp h
    exact hf.takenOut o

/-- A lamp behind a coin in a box is moved to the front of the same box, or taken out of it. -/
theorem Forest.move_remove_exact_lamp :
    ∃ w moved removed : World, w.Forest ∧ w.children ⟨0⟩ = [⟨2⟩, ⟨1⟩] ∧
      w.move ⟨1⟩ ⟨0⟩ = .ok moved ∧ w.MovedInto ⟨1⟩ ⟨0⟩ moved ∧
      moved.children ⟨0⟩ = [⟨1⟩, ⟨2⟩] ∧
      w.remove ⟨1⟩ = .ok removed ∧ w.TakenOut ⟨1⟩ removed ∧ removed.children ⟨0⟩ = [⟨2⟩] := by
  have hbox := Forest.empty.change
    (.register (show World.empty.register (.named "BOX") = .ok (_, ⟨0⟩) from rfl))
  have hlamp := hbox.change
    (.register (show World.register _ (.named "LAMP") = .ok (_, ⟨1⟩) from rfl))
  have hcoin := hlamp.change
    (.register (show World.register _ (.named "COIN") = .ok (_, ⟨2⟩) from rfl))
  have hbehind := hcoin.change (.program (.move (show World.move _ ⟨1⟩ ⟨0⟩ = .ok _ from rfl)))
  have hf := hbehind.change (.program (.move (show World.move _ ⟨2⟩ ⟨0⟩ = .ok _ from rfl)))
  obtain ⟨-, hmove, -, hremove⟩ := hf.move_remove_exact ⟨1⟩ ⟨0⟩
  exact ⟨_, _, _, hf, rfl, rfl, hmove _ rfl, rfl, rfl, hremove _ rfl, rfl⟩

end World

end TextAdventure
