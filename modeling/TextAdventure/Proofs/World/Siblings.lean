import TextAdventure.Proofs.Play.Reachable

/-!
Going through the children of an object.

From the first child one goes on from each child to the next.  The next child is found by looking
for the child in the list of its own container, so it is the right one where lists have no
repetitions and agree with the containers.

* `World.sibling?` — the child reached after so many steps;
* `Forest.nextSibling?_eq` — in a forest the next sibling is the next in the list;
* `Forest.sibling?_eq` — so the steps lead through the list of children and then nowhere;
* `World.SamePlaces` — two worlds in which everything is at the same place.
-/

namespace TextAdventure.World

/-- The object that is reached from the first child by going on to the next sibling. -/
def sibling? (w : World) (p : ObjectId) : Nat → Option ObjectId
  | 0 => w.firstChild? p
  | steps + 1 => (w.sibling? p steps).bind w.nextSibling?

theorem childAfter_append {before rest : List ObjectId} {o : ObjectId} (ho : o ∉ before) :
    childAfter o (before ++ o :: rest) = rest.head? := by
  induction before with
  | nil => exact if_pos rfl
  | cons first before ih =>
    obtain ⟨hfirst, hbefore⟩ := not_or.mp (fun h => ho (List.mem_cons.mpr h))
    rw [List.cons_append, childAfter, if_neg (Ne.symm hfirst)]
    exact ih hbefore

namespace Forest

variable {w : World} (hf : w.Forest)
include hf

theorem nextSibling?_eq {p o : ObjectId} {before rest : List ObjectId}
    (h : w.children p = before ++ o :: rest) : w.nextSibling? o = rest.head? := by
  have hparent : w.parent? o = some p := (hf.mem_children o p).mp (by rw [h]; simp)
  have hnodup := hf.nodup p
  rw [h] at hnodup
  have hbefore : o ∉ before := fun hmem =>
    (List.nodup_append.mp hnodup).2.2 o hmem o List.mem_cons_self rfl
  rw [nextSibling?, hparent, Option.bind_some, h, childAfter_append hbefore]

/-- Going on from sibling to sibling is going through the list of children. -/
theorem sibling?_eq (p : ObjectId) (steps : Nat) :
    w.sibling? p steps = (w.children p)[steps]? := by
  induction steps with
  | zero => exact List.head?_eq_getElem?
  | succ steps ih =>
    rw [sibling?, ih]
    by_cases hlt : steps < (w.children p).length
    · have hsplit : w.children p = (w.children p).take steps ++
          (w.children p)[steps] :: (w.children p).drop (steps + 1) := by
        rw [← List.drop_eq_getElem_cons hlt, List.take_append_drop]
      rw [List.getElem?_eq_getElem hlt, Option.bind_some, hf.nextSibling?_eq hsplit,
        List.head?_drop]
    · have hge := Nat.le_of_not_lt hlt
      rw [List.getElem?_eq_none hge, List.getElem?_eq_none (Nat.le_succ_of_le hge)]
      rfl

end Forest

/-- Every object has the same container and the same children. -/
structure SamePlaces (w w' : World) : Prop where
  parent? (o : ObjectId) : w'.parent? o = w.parent? o
  children (o : ObjectId) : w'.children o = w.children o

theorem SamePlaces.forest {w w' : World} (h : w.SamePlaces w') (hf : w.Forest) : w'.Forest :=
  Forest.congr h.parent? h.children hf

end TextAdventure.World
