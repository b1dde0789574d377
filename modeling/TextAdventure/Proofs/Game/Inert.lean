import TextAdventure.Proofs.Game.PreEvaluation
import TextAdventure.Proofs.World.Change

/-!
Declarations that run no code.

The values of globals and of property defaults are found while a game is loaded, and so are those of
`%` forms.  Where no form is run for that, the objects stay as they are from the time they have been
filled in.

* `Node.isInert` — evaluating a node runs no form;
* `eval_inert` — then it leaves all objects alone;
* `Declaration.isInert` — loading a declaration runs no form, apart from objects;
* `complete_keepsObjects` — then nothing happens to objects once they have been filled in.
-/

namespace TextAdventure

/-! ### Actions that leave the objects alone -/

/-- However an action ends, it leaves all objects as they were. -/
def Run.KeepsObjects {α : Type} (act : Run α) : Prop :=
  Run.Across (fun m m' => m'.world.objects = m.world.objects) act

namespace Run.KeepsObjects

variable {α β : Type}

theorem pure (a : α) : Run.KeepsObjects (pure a : Run α) := fun _ => rfl

theorem fail (fault : Fault) : Run.KeepsObjects (Run.fail fault : Run α) := fun _ => rfl

theorem read (f : Machine → α) : Run.KeepsObjects (Run.read f) := fun _ => rfl

theorem ofExcept (e : Except Fault α) : Run.KeepsObjects (Run.ofExcept e) := by
  cases e with
  | ok a => exact pure a
  | error fault => exact fail fault

theorem bind {act : Run α} {next : α → Run β} (hact : act.KeepsObjects)
    (hnext : ∀ a, (next a).KeepsObjects) : (act >>= next).KeepsObjects :=
  Run.Across.bind (fun _ _ _ h h' => h'.trans h) hact fun a _ => hnext a

theorem forEach {act : α → Run Unit} {as : List α} (h : ∀ a ∈ as, (act a).KeepsObjects) :
    (Run.forEach act as).KeepsObjects := by
  induction as with
  | nil => exact pure ()
  | cons a as ih =>
    exact bind (h a List.mem_cons_self) fun _ => ih fun b hb => h b (List.mem_cons_of_mem a hb)

theorem atTopLevel {act : Run Value} (hact : act.KeepsObjects) :
    (TextAdventure.atTopLevel act).KeepsObjects :=
  fun m => hact { m with frame := .topLevel }

end Run.KeepsObjects

/-! ### Nodes without code -/

mutual

/-- Whether evaluating a node runs no form: there is none in it, but for quoted ones. -/
def Node.isInert : Node → Bool
  | .form _ _ _ => false
  | .list items _ => Node.allInert items
  | .marked .quote _ _ => true
  | .marked .quasiquote _ _ => true
  | .marked .splice body _ => body.isInert
  | .marked .percent body _ => body.isInert
  | .marked (.tag _) body _ => body.isInert
  | _ => true

/-- Whether evaluating some nodes runs no form. -/
def Node.allInert : List Node → Bool
  | [] => true
  | node :: nodes => node.isInert && Node.allInert nodes

end

theorem evalAll_keepsObjects {ev : Node → Run Value}
    (hev : ∀ node, node.isInert = true → (ev node).KeepsObjects) {nodes : List Node}
    (h : Node.allInert nodes = true) : (evalAll ev nodes).KeepsObjects := by
  induction nodes with
  | nil => exact .pure []
  | cons node nodes ih =>
    obtain ⟨hnode, hnodes⟩ := Bool.and_eq_true_iff.mp h
    exact .bind (hev node hnode) fun _ => .bind (ih hnodes) fun _ => .pure _

theorem eval_inert (lib : Library) (fuel : Nat) {node : Node} (h : node.isInert = true) :
    (eval lib fuel node).KeepsObjects := by
  induction fuel generalizing node with
  | zero => exact fun _ => rfl
  | succ fuel ih =>
    rw [eval]
    cases node with
    | form operator args span => cases h
    | list items span =>
      rw [Node.isInert] at h
      exact .bind (evalAll_keepsObjects (fun _ => ih) h) fun _ => .pure _
    | reference sigil name span => exact .bind (.read _) fun e => .ofExcept e
    | marked marker body span =>
      cases marker with
      | quote => exact .pure _
      | quasiquote => exact .pure _
      | splice =>
        rw [Node.isInert] at h
        exact ih h
      | percent =>
        rw [Node.isInert] at h
        exact ih h
      | tag name =>
        rw [Node.isInert] at h
        rw [evalStep, taggedValue]
        split
        · exact ih h
        · split
          · exact .pure _
          · exact .fail _
    | _ => exact .pure _

theorem constantValue_inert (lib : Library) (fuel : Nat) {node : Node} (h : node.isInert = true) :
    (constantValue lib fuel node).KeepsObjects :=
  .atTopLevel (.collapse (eval_inert lib fuel h))

mutual

theorem literalValue_inert (lib : Library) (fuel : Nat) : ∀ {node : Node}, node.isInert = true →
    (literalValue lib fuel node).KeepsObjects
  | .atom name _, _ => by
    rw [literalValue]
    split
    · exact .pure _
    · exact .read _
  | .reference _ _ _, _ => by
    rw [literalValue]
    exact .read _
  | .empty _, _ => by
    rw [literalValue]
    exact .pure _
  | .list [] _, _ => by
    rw [literalValue]
    exact .pure _
  | .list (item :: items) _, h => by
    rw [Node.isInert, Node.allInert] at h
    obtain ⟨hitem, hitems⟩ := Bool.and_eq_true_iff.mp h
    rw [literalValue]
    exact .bind (literalValue_inert lib fuel hitem) fun _ =>
      .bind (literalValues_inert lib fuel hitems) fun _ => .pure _
  | .literal _ _, _ => by
    rw [literalValue]
    exact .pure _
  | .marked _ _ _, h => by
    rw [literalValue]
    exact constantValue_inert lib fuel h

theorem literalValues_inert (lib : Library) (fuel : Nat) : ∀ {nodes : List Node},
    Node.allInert nodes = true → (literalValues lib fuel nodes).KeepsObjects
  | [], _ => by
    rw [literalValues]
    exact .pure _
  | _ :: _, h => by
    rw [Node.allInert] at h
    obtain ⟨hnode, hnodes⟩ := Bool.and_eq_true_iff.mp h
    rw [literalValues]
    exact .bind (literalValue_inert lib fuel hnode) fun _ =>
      .bind (literalValues_inert lib fuel hnodes) fun _ => .pure _

end

mutual

theorem preEvaluate_inert (lib : Library) (fuel : Nat) : ∀ {node : Node},
    (∀ form ∈ node.reached, form.isInert = true) → (preEvaluate lib fuel node).KeepsObjects
  | .marked marker body span, h => by
    by_cases hmarker : marker = .percent
    · subst hmarker
      rw [Node.reached] at h
      have hbody := h _ (List.mem_singleton_self _)
      rw [Node.isInert] at hbody
      rw [preEvaluate]
      exact .bind (constantValue_inert lib fuel hbody) fun _ =>
        .bind (.read _) fun e => .ofExcept e
    · rw [preEvaluate_marked marker hmarker]
      exact .pure _
  | .form _ _ _, h => by
    rw [Node.reached] at h
    rw [preEvaluate]
    exact .bind (preEvaluateAll_inert lib fuel h) fun _ => .pure _
  | .list _ _, h => by
    rw [Node.reached] at h
    rw [preEvaluate]
    exact .bind (preEvaluateAll_inert lib fuel h) fun _ => .pure _
  | .empty _, _ | .atom _ _, _ | .reference _ _ _, _ | .literal _ _, _ => by
    rw [preEvaluate]
    exact .pure _

theorem preEvaluateAll_inert (lib : Library) (fuel : Nat) : ∀ {nodes : List Node},
    (∀ form ∈ Node.reachedAll nodes, form.isInert = true) →
      (preEvaluateAll lib fuel nodes).KeepsObjects
  | [], _ => by
    rw [preEvaluateAll]
    exact .pure []
  | _ :: _, h => by
    rw [Node.reachedAll] at h
    rw [preEvaluateAll]
    exact .bind (preEvaluate_inert lib fuel fun form hform => h form (List.mem_append_left _ hform))
      fun _ => .bind (preEvaluateAll_inert lib fuel fun form hform =>
        h form (List.mem_append_right _ hform)) fun _ => .pure _

end

/-! ### Declarations without code -/

/-- Whether loading a declaration of something other than an object runs no form: there is none in
the value that it gives to a global or as a default, and none in a `%` form. -/
def Declaration.isInert (d : Declaration) : Bool :=
  match d.kind with
  | .global | .constant | .setGlobal | .propertyDefault => d.args[1]?.all Node.isInert
  | .routine => (Node.reachedAll (d.args.drop 2)).all Node.isInert
  | _ => true

theorem declareValue_inert (lib : Library) (fuel : Nat) {d : Declaration} (h : d.isInert = true) :
    (declareValue lib fuel d).KeepsObjects := by
  have hnamed (hall : d.args[1]?.all Node.isInert = true) :
      (namedValue lib fuel d).KeepsObjects := by
    refine .bind (.ofExcept _) fun name => ?_
    rcases hnode : d.args[1]? with _ | node
    · exact .pure _
    · rw [hnode] at hall
      exact .bind (literalValue_inert lib fuel hall) fun _ => .pure _
  have hglobal (named : String × Value) :
      (Run.modifyWorld (·.setGlobal named.1 named.2)).KeepsObjects :=
    fun m => m.world.objects_setGlobal named.1 named.2
  rw [Declaration.isInert] at h
  rw [declareValue]
  cases hkind : d.kind with
  | global => exact .bind (hnamed (by rwa [hkind] at h)) hglobal
  | constant => exact .bind (hnamed (by rwa [hkind] at h)) hglobal
  | setGlobal => exact .bind (hnamed (by rwa [hkind] at h)) hglobal
  | propertyDefault => exact .bind (hnamed (by rwa [hkind] at h)) fun _ _ => rfl
  | _ => exact .pure ()

theorem buildRoutine_inert (lib : Library) (fuel : Nat) {d : Declaration}
    (hkind : d.kind = .routine) (h : d.isInert = true) :
    (buildRoutine lib fuel d).KeepsObjects := by
  rw [Declaration.isInert, hkind] at h
  refine .bind (.ofExcept _) fun name => ?_
  split
  · exact .fail _
  · refine .bind (preEvaluateAll_inert lib fuel (List.all_eq_true.mp h)) fun body => ?_
    split
    · exact .pure _
    · exact fun _ => rfl

theorem defineRoutines_inert (fuel : Nat) (lib : Library) {ds : List Declaration}
    (h : ∀ d ∈ ds, d.kind = .routine ∧ d.isInert = true) :
    (defineRoutines fuel lib ds).KeepsObjects := by
  induction ds generalizing lib with
  | nil => exact .pure lib
  | cons d ds ih =>
    obtain ⟨hkind, hd⟩ := h d List.mem_cons_self
    exact .bind (buildRoutine_inert lib fuel hkind hd) fun _ =>
      ih _ fun e he => h e (List.mem_cons_of_mem d he)

/-- Where no code is run, nothing happens to objects once they have been filled in. -/
theorem complete_keepsObjects (settings : Settings) (fuel : Nat) {ds : List Declaration}
    (h : ∀ d ∈ ds, d.isInert = true) : (complete settings fuel ds).KeepsObjects := by
  refine .bind (.forEach fun d hd => declareValue_inert _ fuel (h d hd)) fun _ => ?_
  refine .bind (defineRoutines_inert fuel _ fun d hd => ?_) fun lib => ?_
  · obtain ⟨hmem, hkind⟩ := List.mem_filter.mp hd
    exact ⟨eq_of_beq hkind, h d hmem⟩
  · exact .bind (.ofExcept _) fun _ => .pure _

end TextAdventure
