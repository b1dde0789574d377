import TextAdventure.Proofs.Play.Reachable
import TextAdventure.Proofs.Program.Permanence

/-!
The names of objects.

An object keeps its name for good, and no two objects share one; so in every world that can come
about an object is found under its own name, and it is still found there in all later worlds.

* `World.names` — the names of the objects, in the order of their handles;
* `World.Change.names_eq` — a change leaves the names alone, or adds one that is new;
* `World.Reachable.wellNamed` — names are told apart in every world that can come about;
* `World.WellNamed.lookup?_objectName` — so an object is found under its name;
* `World.Evolves.lookup?_eq` — what is found under a name is found there later on.
-/

namespace TextAdventure

namespace World

/-- The names of the objects, in the order of their handles. -/
def names (w : World) : List String := w.objects.map (·.name)

theorem length_names (w : World) : w.names.length = w.objects.length := List.length_map ..

theorem lookup?_eq_idxOf? (w : World) (name : String) :
    w.lookup? name = (w.names.idxOf? (canonical name)).map ObjectId.mk := by
  rw [lookup?, names, List.idxOf?, List.findIdx?_map]
  rfl

/-- An object endures with its name. -/
theorem Endures.names_eq {w w' : World} (h : w.Endures w') : w'.names = w.names := by
  refine List.ext_getElem? fun i => ?_
  rw [names, names, List.getElem?_map, List.getElem?_map]
  cases hi : w.objects[i]? with
  | none =>
    have hi' : w'.objects[i]? = none := by
      rw [List.getElem?_eq_none_iff] at hi ⊢
      rw [h.count]
      exact hi
    rw [hi']
  | some object =>
    obtain ⟨object', hobject', hsame⟩ := h.object (o := ⟨i⟩) hi
    have hi' : w'.objects[i]? = some object' := hobject'
    rw [hi', Option.map_some, Option.map_some, hsame.name]

theorem names_register {w w' : World} {spec : ObjectSpec} {o : ObjectId}
    (h : w.register spec = .ok (w', o)) :
    canonical spec.name ∉ w.names ∧ w'.names = w.names ++ [canonical spec.name] := by
  obtain ⟨hnone, -, rfl, -⟩ := register_eq_ok_iff.mp h
  rw [lookup?_eq_idxOf?, Option.map_eq_none_iff, List.idxOf?_eq_none_iff] at hnone
  exact ⟨hnone, List.map_append⟩

/-- A change leaves the names of the objects alone, or adds one that is new. -/
theorem Change.names_eq {w w' : World} (h : Change w w') :
    w'.names = w.names ∨
      ∃ name, canonical name ∉ w.names ∧ w'.names = w.names ++ [canonical name] := by
  cases h with
  | program h => exact .inl (Endures.programChange h).names_eq
  | register h => exact .inr ⟨_, names_register h⟩
  | declareFlag => exact .inl rfl
  | setPropertyDefault => exact .inl rfl
  | fillSlots => exact .inl rfl

/-- The objects have different names, each in canonical spelling. -/
structure WellNamed (w : World) : Prop where
  nodup : w.names.Nodup
  canonical_eq : ∀ name ∈ w.names, canonical name = name

theorem WellNamed.change {w w' : World} (hw : w.WellNamed) (h : Change w w') : w'.WellNamed := by
  obtain heq | ⟨name, hnew, heq⟩ := h.names_eq
  · exact ⟨heq ▸ hw.nodup, heq ▸ hw.canonical_eq⟩
  · constructor
    · rw [heq]
      exact List.nodup_append.mpr ⟨hw.nodup, List.nodup_singleton _, by
        rintro a ha b hb rfl
        rw [List.mem_singleton.mp hb] at ha
        exact hnew ha⟩
    · rw [heq]
      intro other hother
      rcases List.mem_append.mp hother with hother | hother
      · exact hw.canonical_eq other hother
      · rw [List.mem_singleton.mp hother, canonical_canonical]

theorem Evolves.wellNamed {w w' : World} (h : w.Evolves w') (hw : w.WellNamed) :
    w'.WellNamed := by
  induction h with
  | refl => exact hw
  | tail _ hchange ih => exact ih.change hchange

theorem Reachable.wellNamed {w : World} (h : Reachable w) : w.WellNamed :=
  h.evolves.wellNamed ⟨List.nodup_nil, fun _ h => nomatch h⟩

/-- Where names are told apart, an object is found under its own. -/
theorem WellNamed.lookup?_objectName {w : World} (hw : w.WellNamed) {o : ObjectId}
    (ho : w.Has o) : w.lookup? (w.objectName o) = some o := by
  obtain ⟨object, hobject⟩ := object?_of_has ho
  have hname : w.names[o.index]? = some object.name := by
    rw [names, List.getElem?_map]
    exact congrArg (Option.map (·.name)) hobject
  obtain ⟨hlt, hget⟩ := List.getElem?_eq_some_iff.mp hname
  have hfound : w.names.idxOf? object.name = some o.index := by
    refine List.idxOf?_eq_some_iff.mpr ⟨hlt, hget, fun j hj heq => ?_⟩
    -- an earlier object of this name would be this one
    have hindex := hw.nodup.getElem_inj_iff.mp (heq.trans hget.symm)
    omega
  rw [lookup?_eq_idxOf?, objectName, hobject]
  dsimp only
  rw [hw.canonical_eq _ (List.mem_of_getElem? hname), hfound]
  rfl

theorem Evolves.names_prefix {w w' : World} (h : w.Evolves w') : w.names <+: w'.names := by
  induction h with
  | refl => exact List.prefix_rfl
  | tail _ hchange ih =>
    obtain heq | ⟨name, -, heq⟩ := hchange.names_eq
    · rw [heq]
      exact ih
    · rw [heq]
      exact ih.trans (List.prefix_append _ _)

/-- What is found under a name is found there in all later worlds. -/
theorem Evolves.lookup?_eq {w w' : World} (h : w.Evolves w') {name : String} {o : ObjectId}
    (ho : w.lookup? name = some o) : w'.lookup? name = some o := by
  rw [lookup?_eq_idxOf?] at ho ⊢
  obtain ⟨i, hi, rfl⟩ := Option.map_eq_some_iff.mp ho
  rw [List.idxOf?, h.names_prefix.findIdx?_eq_some hi]
  rfl

end World

end TextAdventure
