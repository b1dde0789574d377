import Mathlib.Data.List.Pairwise
import TextAdventure.Proofs.Game.Inert
import TextAdventure.Proofs.World.Arrangement

/-!
Declared places.

An object may be declared to be in another one, which may be declared later.  So all objects are
there before any gets its place, and they get their places in reverse order, each in front of those
that have come into its container so far.

* `DeclaredIn` — one object is declared to be in another;
* `World.Follows` — a world has the declared objects in their declared places, and what each of them
  holds is in the order of declaration;
* `fillObject_places`, `fillObjects_place` — filling in an object adds its link to those of the
  objects declared after it, and fails where that cannot be; so does filling in all of them;
* `introduce_ends` — the objects come into being, as long as there are handles for them;
* `load_containment` — objects can be filled in exactly when every container is declared and none
  is declared to be inside itself, and then the world follows the declarations.

Design notes.  While objects are filled in, the links made so far are those of the objects declared
after the next one.  A cycle is found out when its last link is about to be made, and what has been
said of a part of the declarations is then said of all: a cycle among some links is one among all.
-/

namespace TextAdventure

open Relation

/-! ### What is declared -/

mutual

/-- Whether a node stands for a value as it is: there is no form in it and no marked node. -/
def Node.isDatum : Node → Bool
  | .form _ _ _ => false
  | .marked _ _ _ => false
  | .list items _ => Node.allData items
  | _ => true

/-- Whether all of some nodes stand for values as they are. -/
def Node.allData : List Node → Bool
  | [] => true
  | node :: nodes => node.isDatum && Node.allData nodes

end

namespace Clause

/-- The container that a clause names, in canonical spelling. -/
def container? (c : Clause) : Option String := (c.args.head?.bind Node.name?).map canonical

/-- Whether a clause says `PER` and then names no routine. -/
def lacksRoutine (c : Clause) : Bool :=
  match c.args with
  | marker :: target :: _ => isWord "PER" marker && target.name?.isNone
  | _ => false

/-- Whether a clause can be carried out as it stands: a place names a container, and the value of a
property is found without evaluating anything. -/
def isPlain (c : Clause) : Bool :=
  if c.isIdentity then true
  else if c.isPlace then c.container?.isSome
  else Node.allData c.args && !c.lacksRoutine

end Clause

namespace Declaration

/-- The name that a declaration declares. -/
def name? (d : Declaration) : Option String := d.declaredName.toOption

/-- The container that an object is declared to be in. -/
def container? (d : Declaration) : Option String :=
  (d.clauses.find? Clause.isPlace).bind Clause.container?

/-- Whether an object is declared with a name, with clauses that can be carried out as they stand,
and with at most one place. -/
def isPlain (d : Declaration) : Bool :=
  d.name?.isSome && (d.clauses.all Clause.isPlain && decide (d.clauses.countP Clause.isPlace ≤ 1))

end Declaration

/-- The names of declared objects. -/
def declaredNames (objects : List Declaration) : List String :=
  objects.filterMap Declaration.name?

/-- One object is declared to be in another. -/
def DeclaredIn (objects : List Declaration) (child container : String) : Prop :=
  ∃ d ∈ objects, d.name? = some child ∧ d.container? = some container

instance (objects : List Declaration) (child container : String) :
    Decidable (DeclaredIn objects child container) :=
  inferInstanceAs (Decidable (∃ d ∈ objects, _))

/-- A world has the declared objects and no others.  Each is where it is declared to be, and what it
holds are the objects declared to be in it, in the order of declaration. -/
structure World.Follows (w : World) (objects : List Declaration) : Prop where
  names : w.names = declaredNames objects
  places : ∀ d ∈ objects, ∀ name, d.name? = some name →
    ∃ o, w.lookup? name = some o ∧ (w.parent? o).map w.objectName = d.container? ∧
      (w.children o).map w.objectName =
        declaredNames (objects.filter fun e => e.container? = some name)

theorem Declaration.declaredName_of_name? {d : Declaration} {name : String}
    (h : d.name? = some name) : d.declaredName = .ok name := by
  rw [name?] at h
  rcases hname : d.declaredName with fault | found
  · rw [hname] at h
    cases h
  · rw [hname] at h
    cases h
    rfl

theorem Declaration.ofExcept_declaredName (d : Declaration) {name : String}
    (h : d.name? = some name) (m : Machine) :
    Run.ofExcept d.declaredName m = (.done name, m) := by
  rw [declaredName_of_name? h]
  rfl

theorem Declaration.canonical_name? {d : Declaration} {name : String} (h : d.name? = some name) :
    canonical name = name :=
  d.canonical_declaredName (declaredName_of_name? h)

theorem mem_declaredNames {objects : List Declaration} {name : String} :
    name ∈ declaredNames objects ↔ ∃ d ∈ objects, d.name? = some name :=
  List.mem_filterMap

/-! ### Ends -/

/-- An action comes to an end with a machine of a given kind, or it fails and something is wrong. -/
inductive Run.Ends (act : Run Unit) (m : Machine) (Q : Machine → Prop) (wrong : Prop) : Prop
  | done {m' : Machine} (h : act m = (.done (), m')) (hm : Q m')
  | failed {f : Failure} {m' : Machine} (h : act m = (.failed f, m')) (hwrong : wrong)

namespace Run.Ends

variable {act next : Run Unit} {m : Machine} {Q R : Machine → Prop} {wrong worse : Prop}

theorem mono (h : act.Ends m Q wrong) (hQ : ∀ m', Q m' → R m') (hwrong : wrong → worse) :
    act.Ends m R worse := by
  cases h with
  | done h hm => exact .done h (hQ _ hm)
  | failed h hw => exact .failed h (hwrong hw)

theorem congr {other : Run Unit} (hsame : act m = other m) (h : other.Ends m Q wrong) :
    act.Ends m Q wrong := by
  cases h with
  | done h hm => exact .done (hsame.trans h) hm
  | failed h hw => exact .failed (hsame.trans h) hw

theorem bind (h : act.Ends m Q wrong) (hnext : ∀ m', Q m' → next.Ends m' R wrong) :
    (act >>= fun _ => next).Ends m R wrong := by
  cases h with
  | done h hm =>
    cases hnext _ hm with
    | done h' hm' => exact .done ((bind_of_done h).trans h') hm'
    | failed h' hw => exact .failed ((bind_of_done h).trans h') hw
  | failed h hw => exact .failed (bind_of_failed h) hw

end Run.Ends

theorem Run.changeWorld_of_ok {f : World → Except Fault World} {m : Machine} {w : World}
    (h : f m.world = .ok w) : Run.changeWorld f m = (.done (), { m with world := w }) := by
  rw [Run.changeWorld, h]

theorem Run.changeWorld_of_error {f : World → Except Fault World} {m : Machine} {fault : Fault}
    (h : f m.world = .error fault) : Run.changeWorld f m = (.failed (.ofFault fault), m) := by
  rw [Run.changeWorld, h]

/-! ### Properties -/

mutual

theorem literalValue_datum (lib : Library) (fuel : Nat) (m : Machine) : ∀ {node : Node},
    node.isDatum = true → ∃ v, literalValue lib fuel node m = (.done v, m)
  | .atom name _, _ => by
    rw [literalValue]
    split
    · exact ⟨_, rfl⟩
    · exact ⟨_, rfl⟩
  | .reference _ _ _, _ | .empty _, _ | .list [] _, _ | .literal _ _, _ => by
    rw [literalValue]
    exact ⟨_, rfl⟩
  | .list (item :: items) _, h => by
    rw [Node.isDatum, Node.allData] at h
    obtain ⟨hitem, hitems⟩ := Bool.and_eq_true_iff.mp h
    obtain ⟨v, hv⟩ := literalValue_datum lib fuel m hitem
    obtain ⟨vs, hvs⟩ := literalValues_datum lib fuel m hitems
    rw [literalValue, Run.bind_of_done hv, Run.bind_of_done hvs]
    exact ⟨_, rfl⟩

theorem literalValues_datum (lib : Library) (fuel : Nat) (m : Machine) : ∀ {nodes : List Node},
    Node.allData nodes = true → ∃ vs, literalValues lib fuel nodes m = (.done vs, m)
  | [], _ => by
    rw [literalValues]
    exact ⟨_, rfl⟩
  | node :: nodes, h => by
    rw [Node.allData] at h
    obtain ⟨hnode, hnodes⟩ := Bool.and_eq_true_iff.mp h
    obtain ⟨v, hv⟩ := literalValue_datum lib fuel m hnode
    obtain ⟨vs, hvs⟩ := literalValues_datum lib fuel m hnodes
    rw [literalValues, Run.bind_of_done hv, Run.bind_of_done hvs]
    exact ⟨_, rfl⟩

end

/-- The value of a plain property is found, and nothing is changed for it. -/
theorem propertyValue_plain (lib : Library) (fuel : Nat) (m : Machine) {c : Clause}
    (hdata : Node.allData c.args = true) (hroutine : c.lacksRoutine = false) :
    ∃ v, propertyValue lib fuel c.args m = (.done v, m) := by
  rw [Clause.lacksRoutine] at hroutine
  rcases hargs : c.args with _ | ⟨marker, _ | ⟨target, rest⟩⟩
  all_goals rw [hargs] at hdata hroutine
  · exact ⟨_, rfl⟩
  · exact literalValue_datum lib fuel m (Bool.and_eq_true_iff.mp hdata).1
  · rw [propertyValue]
    split
    · obtain ⟨-, hrest⟩ := Bool.and_eq_true_iff.mp hdata
      exact literalValue_datum lib fuel m (Bool.and_eq_true_iff.mp hrest).1
    split
    · rename_i hper
      dsimp only at hroutine
      rw [hper, Bool.true_and, Option.isNone_eq_false_iff] at hroutine
      obtain ⟨routine, hname⟩ := Option.isSome_iff_exists.mp hroutine
      rw [hname]
      exact ⟨_, rfl⟩
    · obtain ⟨vs, hvs⟩ := literalValues_datum lib fuel m hdata
      rw [Run.bind_of_done hvs]
      exact ⟨_, rfl⟩

/-! ### Clauses -/

theorem Clause.isIdentity_of_isPlace (c : Clause) (h : c.isPlace = true) :
    c.isIdentity = false := by
  rw [Clause.isPlace, Bool.or_eq_true, beq_iff_eq, beq_iff_eq] at h
  rcases h with hname | hname
  · rw [Clause.isIdentity, hname]
    decide
  · rw [Clause.isIdentity, hname]
    decide

/-- A plain clause about a place names a container. -/
theorem Clause.exists_container {c : Clause} (hplain : c.isPlain = true)
    (hplace : c.isPlace = true) : ∃ container, c.container? = some container := by
  rw [Clause.isPlain, c.isIdentity_of_isPlace hplace, if_neg Bool.false_ne_true,
    if_pos hplace] at hplain
  exact Option.isSome_iff_exists.mp hplain

/-- The link from an object to the container that is named for it. -/
def linkTo (names : List String) (o : ObjectId) (place : Option String) :
    List (ObjectId × ObjectId) :=
  ((place.bind (handle? names)).map fun p => (o, p)).toList

section

variable {lib : Library} {fuel : Nat} {names : List String} {links : List (ObjectId × ObjectId)}
  {name : String} {o : ObjectId} (ho : handle? names name = some o)
include ho

theorem fillClause_keeps {c : Clause} (hplain : c.isPlain = true) (hplace : c.isPlace = false)
    {m : Machine} (hm : m.world.Arranged names links) :
    (fillClause lib fuel o c).Ends m (fun m' => m'.world.Arranged names links) False := by
  rw [Clause.isPlain] at hplain
  rw [fillClause]
  split
  · exact .done rfl hm
  rename_i hidentity
  rw [if_neg hidentity, hplace, if_neg Bool.false_ne_true, Bool.and_eq_true,
    Bool.not_eq_true'] at hplain
  rw [hplace, if_neg Bool.false_ne_true]
  obtain ⟨v, hv⟩ := propertyValue_plain lib fuel m hplain.1 hplain.2
  obtain ⟨object, hobject⟩ := World.existing_of_has (hm.has ho)
  obtain ⟨w, hw⟩ : ∃ w, m.world.putProperty o c.name v = .ok w := by
    rw [World.putProperty, hobject]
    exact ⟨_, rfl⟩
  refine .done ((Run.bind_of_done hv).trans (Run.changeWorld_of_ok hw)) ?_
  rw [World.putProperty_eq_ok hw]
  exact hm.modifyObject o (fun _ => rfl) (fun _ => rfl) fun _ => rfl

omit ho in
theorem containerOf_eq_ok_iff {w : World} (hw : w.Arranged names links) {c : Clause}
    {container : String} (hc : c.container? = some container) {p : ObjectId} :
    containerOf w c = .ok p ↔ handle? names container = some p := by
  obtain ⟨word, hword, rfl⟩ := Option.map_eq_some_iff.mp hc
  rw [containerOf, hword]
  dsimp only
  rw [hw.lookup?]
  rcases handle? names (canonical word) with _ | q
  · simp only [reduceCtorEq]
  · simp only [Except.ok.injEq, Option.some_inj]

theorem fillClause_places {c : Clause} (hplace : c.isPlace = true) {container : String}
    (hc : c.container? = some container) (hroot : ∀ q, (o, q) ∉ links) {m : Machine}
    (hm : m.world.Arranged names links) :
    (fillClause lib fuel o c).Ends m
      (fun m' => container ∈ names ∧
        m'.world.Arranged names (linkTo names o (some container) ++ links))
      (container ∉ names ∨ Cyclic (linkTo names o (some container) ++ links)) := by
  rw [fillClause, c.isIdentity_of_isPlace hplace, if_neg Bool.false_ne_true, if_pos hplace]
  rcases hcontainer : containerOf m.world c with fault | p
  · refine .failed (Run.changeWorld_of_error (by rw [hcontainer])) (.inl fun hmem => ?_)
    obtain ⟨p, hp⟩ := exists_handle? hmem
    rw [(containerOf_eq_ok_iff hm hc).mpr hp] at hcontainer
    cases hcontainer
  · have hp := (containerOf_eq_ok_iff hm hc).mp hcontainer
    have hlink : linkTo names o (some container) ++ links = (o, p) :: links := by
      rw [linkTo, Option.bind_some, hp]
      rfl
    rw [hlink]
    rcases hmove : m.world.move o p with fault | w
    · refine .failed (Run.changeWorld_of_error (by rw [hcontainer]; exact hmove)) (.inr ?_)
      exact hm.cyclic_of_refused (hm.has ho) (hm.has hp) hmove
    · refine .done (Run.changeWorld_of_ok (by rw [hcontainer]; exact hmove)) ⟨?_, ?_⟩
      · exact List.mem_of_getElem? (getElem?_of_handle? hp)
      · exact hm.move hroot hmove

theorem fillClauses_keep {cs : List Clause} (hplain : ∀ c ∈ cs, c.isPlain = true)
    (hnone : ∀ c ∈ cs, c.isPlace = false) {m : Machine} (hm : m.world.Arranged names links) :
    (Run.forEach (fillClause lib fuel o) cs).Ends m
      (fun m' => m'.world.Arranged names links) False := by
  induction cs generalizing m with
  | nil => exact .done rfl hm
  | cons c cs ih =>
    refine .bind (fillClause_keeps ho (hplain c List.mem_cons_self) (hnone c List.mem_cons_self) hm)
      fun m' hm' => ?_
    exact ih (fun e he => hplain e (List.mem_cons_of_mem c he))
      (fun e he => hnone e (List.mem_cons_of_mem c he)) hm'

/-- Of plain clauses with at most one place among them, only that one makes a link. -/
theorem fillClauses_place {cs : List Clause} (hplain : ∀ c ∈ cs, c.isPlain = true)
    (hone : cs.countP Clause.isPlace ≤ 1) (hroot : ∀ q, (o, q) ∉ links) {m : Machine}
    (hm : m.world.Arranged names links) {place : Option String}
    (hplace : (cs.find? Clause.isPlace).bind Clause.container? = place) :
    (Run.forEach (fillClause lib fuel o) cs).Ends m
      (fun m' => (∀ container, place = some container → container ∈ names) ∧
        m'.world.Arranged names (linkTo names o place ++ links))
      ((∃ container, place = some container ∧ container ∉ names) ∨
        Cyclic (linkTo names o place ++ links)) := by
  induction cs generalizing m with
  | nil =>
    subst hplace
    exact .done rfl ⟨nofun, hm⟩
  | cons c cs ih =>
    have hrest : ∀ e ∈ cs, e.isPlain = true := fun e he => hplain e (List.mem_cons_of_mem c he)
    by_cases hc : c.isPlace = true
    · -- this is the place, and no other one follows
      obtain ⟨container, hcontainer⟩ := c.exists_container (hplain c List.mem_cons_self) hc
      rw [List.find?_cons_of_pos hc, Option.bind_some, hcontainer] at hplace
      subst hplace
      rw [List.countP_cons_of_pos hc] at hone
      have hnone : ∀ e ∈ cs, e.isPlace = false := fun e he =>
        Bool.eq_false_iff.mpr (List.countP_eq_zero.mp (by omega) e he)
      refine .bind ((fillClause_places ho hc hcontainer hroot hm).mono (fun _ h => h) ?_) ?_
      · exact .imp_left fun hnot => ⟨container, rfl, hnot⟩
      · rintro m' ⟨hmem, hm'⟩
        refine (fillClauses_keep ho hrest hnone hm').mono (fun _ h => ⟨?_, h⟩) False.elim
        rintro _ ⟨⟩
        exact hmem
    · rw [List.find?_cons_of_neg hc] at hplace
      rw [List.countP_cons_of_neg hc] at hone
      refine .bind ((fillClause_keeps ho (hplain c List.mem_cons_self)
        (Bool.eq_false_iff.mpr hc) hm).mono (fun _ h => h) False.elim) fun m' hm' => ?_
      exact ih hrest hone hm' hplace

end

/-! ### Objects -/

/-- The links that objects are declared with. -/
def declaredLinks (names : List String) (ds : List Declaration) : List (ObjectId × ObjectId) :=
  ds.flatMap fun d =>
    (d.name?.bind (handle? names)).elim [] fun o => linkTo names o d.container?

theorem mem_declaredLinks {names : List String} {ds : List Declaration} {c p : ObjectId} :
    (c, p) ∈ declaredLinks names ds ↔ ∃ d ∈ ds,
      (∃ name, d.name? = some name ∧ handle? names name = some c) ∧
      ∃ container, d.container? = some container ∧ handle? names container = some p := by
  rw [declaredLinks, List.mem_flatMap]
  refine exists_congr fun d => and_congr_right fun _ => ?_
  rw [← Option.bind_eq_some_iff, ← Option.bind_eq_some_iff]
  rcases d.name?.bind (handle? names) with _ | o
  · simp
  · rw [Option.elim_some, linkTo]
    rcases d.container?.bind (handle? names) with _ | q
    · simp
    · simp [eq_comm]

theorem declaredLinks_subset {names : List String} {ds ds' : List Declaration} (h : ds ⊆ ds') :
    declaredLinks names ds ⊆ declaredLinks names ds' := by
  rintro ⟨c, p⟩ hlink
  obtain ⟨d, hd, hends⟩ := mem_declaredLinks.mp hlink
  exact mem_declaredLinks.mpr ⟨d, h hd, hends⟩

/-- Some declarations have been followed: their containers are there, and their links are made. -/
structure Placed (names : List String) (ds : List Declaration) (m : Machine) : Prop where
  declared : ∀ d ∈ ds, ∀ container, d.container? = some container → container ∈ names
  arranged : m.world.Arranged names (declaredLinks names ds)

/-- Some declarations cannot be followed: a container is missing, or the links form a cycle. -/
def Unplaceable (names : List String) (ds : List Declaration) : Prop :=
  (∃ d ∈ ds, ∃ container, d.container? = some container ∧ container ∉ names) ∨
    Cyclic (declaredLinks names ds)

theorem Unplaceable.mono {names : List String} {ds ds' : List Declaration} (hsub : ds ⊆ ds')
    (h : Unplaceable names ds) : Unplaceable names ds' := by
  rcases h with ⟨d, hd, hmissing⟩ | hcyclic
  · exact .inl ⟨d, hsub hd, hmissing⟩
  · exact .inr (hcyclic.mono (declaredLinks_subset hsub))

theorem Placed.not_unplaceable {names : List String} {ds : List Declaration} {m : Machine}
    (h : Placed names ds m) : ¬ Unplaceable names ds := by
  rintro (⟨d, hd, container, hcontainer, hmissing⟩ | hcyclic)
  · exact hmissing (h.declared d hd container hcontainer)
  · exact h.arranged.not_cyclic hcyclic

/-- An object is found under its name, and its clauses are carried out. -/
theorem fillObject_eq (lib : Library) (fuel : Nat) {d : Declaration} {name : String}
    (hname : d.name? = some name) {m : Machine} {o : ObjectId}
    (ho : m.world.lookup? name = some o) :
    fillObject lib fuel d m = Run.forEach (fillClause lib fuel o) d.clauses m := by
  have hread : Run.readWorld (·.lookup? name) m = (.done (some o), m) := by rw [← ho]; rfl
  rw [fillObject, Run.bind_of_done (d.ofExcept_declaredName hname m), Run.bind_of_done hread]

section

variable {lib : Library} {fuel : Nat} {names : List String}

/-- Filling in an object adds its link to those of the objects declared after it, or else it cannot
be placed. -/
theorem fillObject_places {d : Declaration} {later : List Declaration} (hplain : d.isPlain = true)
    {name : String} (hname : d.name? = some name) (hmem : name ∈ names)
    (hnew : name ∉ declaredNames later) {m : Machine} (hm : Placed names later m) :
    (fillObject lib fuel d).Ends m (Placed names (d :: later))
      (Unplaceable names (d :: later)) := by
  obtain ⟨o, ho⟩ := exists_handle? hmem
  obtain ⟨-, hclauses⟩ := Bool.and_eq_true_iff.mp hplain
  obtain ⟨hclauses, hone⟩ := Bool.and_eq_true_iff.mp hclauses
  have hlookup : m.world.lookup? name = some o := by
    rw [hm.arranged.lookup?, Declaration.canonical_name? hname]
    exact ho
  have hroot : ∀ q, (o, q) ∉ declaredLinks names later := by
    intro q hq
    obtain ⟨e, he, ⟨other, hother, hhandle⟩, -⟩ := mem_declaredLinks.mp hq
    rw [handle?_inj hhandle ho] at hother
    exact hnew (mem_declaredNames.mpr ⟨e, he, hother⟩)
  have hlinks : declaredLinks names (d :: later) =
      linkTo names o d.container? ++ declaredLinks names later := by
    rw [declaredLinks, List.flatMap_cons, hname, Option.bind_some, ho]
    rfl
  refine .congr (fillObject_eq lib fuel hname hlookup) ?_
  refine (fillClauses_place ho (List.all_eq_true.mp hclauses) (of_decide_eq_true hone) hroot
    hm.arranged rfl).mono (fun m' hplaced => ?_) fun hwrong => ?_
  · obtain ⟨hdeclared, harranged⟩ := hplaced
    refine ⟨fun e he => ?_, hlinks ▸ harranged⟩
    rcases List.mem_cons.mp he with rfl | he
    · exact hdeclared
    · exact hm.declared e he
  · rcases hwrong with hmissing | hcyclic
    · exact .inl ⟨d, List.mem_cons_self, hmissing⟩
    · exact .inr (hlinks ▸ hcyclic)

/-- Filling in objects, the last declared first, makes the links of all of them. -/
theorem fillObjects_place {todo later : List Declaration}
    (hplain : ∀ d ∈ todo, d.isPlain = true) (hmem : declaredNames todo ⊆ names)
    (hnodup : (declaredNames (todo ++ later)).Nodup) {m : Machine} (hm : Placed names later m) :
    (Run.forEach (fillObject lib fuel) todo).Ends m (Placed names (todo.reverse ++ later))
      (Unplaceable names (todo.reverse ++ later)) := by
  induction todo generalizing m later with
  | nil => exact .done rfl hm
  | cons d todo ih =>
    have hd := hplain d List.mem_cons_self
    obtain ⟨name, hname⟩ := Option.isSome_iff_exists.mp (Bool.and_eq_true_iff.mp hd).1
    have hcons (ds : List Declaration) : declaredNames (d :: ds) = name :: declaredNames ds :=
      List.filterMap_cons_some hname
    rw [hcons] at hmem
    rw [List.cons_append, hcons, List.nodup_cons] at hnodup
    rw [List.reverse_cons, List.append_assoc, List.singleton_append]
    have hnew : name ∉ declaredNames later := by
      intro hlater
      obtain ⟨e, he, hother⟩ := mem_declaredNames.mp hlater
      exact hnodup.1 (mem_declaredNames.mpr ⟨e, List.mem_append_right todo he, hother⟩)
    refine .bind ((fillObject_places hd hname (hmem List.mem_cons_self) hnew hm).mono
      (fun _ h => h) (Unplaceable.mono (List.subset_append_right _ _))) fun m' hm' => ?_
    refine ih (fun e he => hplain e (List.mem_cons_of_mem d he))
      (fun other hother => hmem (List.mem_cons_of_mem name hother)) ?_ hm'
    -- the names are the same ones, with that of `d` further behind
    have hperm : (declaredNames (todo ++ d :: later)).Perm
        (name :: declaredNames (todo ++ later)) := by
      rw [← hcons]
      exact List.perm_middle.filterMap _
    exact hperm.nodup_iff.mpr (List.nodup_cons.mpr hnodup)

end

/-! ### Bringing objects into being -/

/-- No object of a world has a place. -/
def World.Unplaced (w : World) : Prop :=
  ∀ object ∈ w.objects, object.parent = none ∧ object.children = []

theorem lookup?_specOf {d : Declaration} {name : String} (hname : d.name? = some name)
    {w : World} (hnew : name ∉ w.names) : w.lookup? (specOf name d.clauses).name = none := by
  rw [name_specOf, World.lookup?_eq_idxOf?, Declaration.canonical_name? hname,
    Option.map_eq_none_iff]
  exact List.idxOf?_eq_none_iff.mpr hnew

theorem registerObject_unplaced {d : Declaration} {name : String} (hname : d.name? = some name)
    {m : Machine} (hnew : name ∉ m.world.names) (hroom : m.world.names.length < handleLimit)
    (hm : m.world.Unplaced) :
    ∃ m', registerObject d m = (.done (), m') ∧ m'.world.names = m.world.names ++ [name] ∧
      m'.world.Unplaced := by
  have hnone := lookup?_specOf hname hnew
  obtain ⟨⟨w, o⟩, hw⟩ : ∃ made, m.world.register (specOf name d.clauses) = .ok made :=
    ⟨(_, _), World.register_eq_ok_iff.mpr
      ⟨hnone, m.world.length_names ▸ hroom, rfl, rfl⟩⟩
  refine ⟨{ m with world := w }, ?_, ?_, ?_⟩
  · rw [registerObject, Run.bind_of_done (d.ofExcept_declaredName hname m)]
    exact Run.changeWorld_of_ok (by rw [hw]; rfl)
  · have hnames := (World.names_register hw).2
    rwa [name_specOf, Declaration.canonical_name? hname] at hnames
  · obtain ⟨-, -, rfl, -⟩ := World.register_eq_ok_iff.mp hw
    intro other hother
    rcases List.mem_append.mp hother with hold | hlast
    · exact hm other hold
    · obtain rfl := List.mem_singleton.mp hlast
      exact ⟨rfl, rfl⟩

theorem registerObject_refused {d : Declaration} {name : String} (hname : d.name? = some name)
    {m : Machine} (hnew : name ∉ m.world.names) (hfull : handleLimit ≤ m.world.names.length) :
    registerObject d m = (.failed (.ofFault (.outOfHandles "objects")), m) := by
  rw [registerObject, Run.bind_of_done (d.ofExcept_declaredName hname m)]
  refine Run.changeWorld_of_error ?_
  rw [World.register, lookup?_specOf hname hnew]
  dsimp only
  rw [World.freeHandle_of_not_lt (m.world.length_names ▸ Nat.not_lt.mpr hfull)]
  rfl

/-- Declared objects with different names come into being, and none has a place, as long as there
are handles for all of them; or else one of them is refused. -/
theorem registerObjects_ends {ds : List Declaration} (hnamed : ∀ d ∈ ds, d.name?.isSome = true)
    {m : Machine} (hnodup : (m.world.names ++ declaredNames ds).Nodup) (hm : m.world.Unplaced)
    (hroom : m.world.names.length ≤ handleLimit) :
    (∃ m', Run.forEach registerObject ds m = (.done (), m') ∧
      (m.world.names ++ declaredNames ds).length ≤ handleLimit ∧
      m'.world.names = m.world.names ++ declaredNames ds ∧ m'.world.Unplaced) ∨
    ∃ m', Run.forEach registerObject ds m = (.failed (.ofFault (.outOfHandles "objects")), m') ∧
      handleLimit < (m.world.names ++ declaredNames ds).length := by
  induction ds generalizing m with
  | nil =>
    have hnil : m.world.names ++ declaredNames [] = m.world.names := List.append_nil _
    rw [hnil]
    exact .inl ⟨m, rfl, hroom, rfl, hm⟩
  | cons d ds ih =>
    obtain ⟨name, hname⟩ := Option.isSome_iff_exists.mp (hnamed d List.mem_cons_self)
    have hsplit : m.world.names ++ declaredNames (d :: ds) =
        (m.world.names ++ [name]) ++ declaredNames ds := by
      rw [declaredNames, List.filterMap_cons_some hname, List.append_assoc]
      rfl
    rw [hsplit] at hnodup ⊢
    have hnew : name ∉ m.world.names := fun hold =>
      List.disjoint_of_nodup_append (List.Nodup.of_append_left hnodup) hold
        (List.mem_singleton_self name)
    rcases Nat.lt_or_ge m.world.names.length handleLimit with hlt | hfull
    · obtain ⟨m₁, hrun, hnames, hm₁⟩ := registerObject_unplaced hname hnew hlt hm
      rw [← hnames] at hnodup ⊢
      have hroom₁ : m₁.world.names.length ≤ handleLimit := by
        rw [hnames, List.length_append]
        exact hlt
      have hcons : Run.forEach registerObject (d :: ds) m = Run.forEach registerObject ds m₁ :=
        Run.bind_of_done hrun
      rw [hcons]
      exact ih (fun e he => hnamed e (List.mem_cons_of_mem d he)) hnodup hm₁ hroom₁
    · refine .inr ⟨m, Run.bind_of_failed (registerObject_refused hname hnew hfull), ?_⟩
      simp only [List.length_append, List.length_singleton]
      omega

/-- The first phase brings the declared objects into being, with different names and without a
place, as long as there are handles for all of them. -/
theorem introduce_ends {ds : List Declaration}
    (hnamed : ∀ d ∈ ds.filter (·.kind.isObject), d.name?.isSome = true)
    (hnodup : (declaredNames (ds.filter (·.kind.isObject))).Nodup) (random : Generator) :
    (∃ m, introduce ds (.initial random) = (.done (), m) ∧
      (declaredNames (ds.filter (·.kind.isObject))).length ≤ handleLimit ∧
      Placed (declaredNames (ds.filter (·.kind.isObject))) [] m) ∨
    ∃ m, introduce ds (.initial random) = (.failed (.ofFault (.outOfHandles "objects")), m) ∧
      handleLimit < (declaredNames (ds.filter (·.kind.isObject))).length := by
  have hinitial : (Machine.initial random).world.Unplaced := fun _ h => nomatch h
  obtain ⟨m, hrun, hroom, hnames, hm⟩ | ⟨m, hrun, hfull⟩ :=
    registerObjects_ends (m := .initial random) hnamed hnodup hinitial (Nat.zero_le _)
  swap
  · exact .inr ⟨m, Run.bind_of_failed hrun, hfull⟩
  have hall : introduce ds (.initial random) = (.done (), { m with world := _ }) :=
    Run.bind_of_done hrun
  refine .inl ⟨_, hall, hroom, nofun, ?_⟩
  have hforest := (introduce_evolves ds (.initial random)).world.forest World.Forest.empty
  rw [hall] at hforest
  obtain ⟨-, hobjects, -, -⟩ := World.declareFlags_spec m.world (declaredFlags ds)
  have hunplaced : ((declaredFlags ds).foldl World.declareFlag m.world).Unplaced := by
    rw [World.Unplaced, hobjects]
    exact hm
  have hsame : ((declaredFlags ds).foldl World.declareFlag m.world).names =
      declaredNames (ds.filter (·.kind.isObject)) := by
    rw [World.names, hobjects]
    exact hnames
  have harranged := World.Arranged.of_unplaced hforest hunplaced
  rw [hsame] at harranged
  exact harranged

/-! ### What comes of it -/

/-- Two declarations of one name are the same one, where names are told apart. -/
theorem eq_of_name? {objects : List Declaration} (hnodup : (declaredNames objects).Nodup)
    {d e : Declaration} (hd : d ∈ objects) (he : e ∈ objects) {name : String}
    (hdname : d.name? = some name) (hename : e.name? = some name) : d = e := by
  let Apart (a b : Declaration) : Prop :=
    ∀ x, a.name? = some x → ∀ y, b.name? = some y → x ≠ y
  have hsymm : Std.Symm Apart := ⟨fun _ _ h x hx y hy heq => h y hy x hx heq.symm⟩
  have happart : objects.Pairwise Apart := List.pairwise_filterMap.mp hnodup
  by_contra hne
  exact happart.forall hd he hne name hdname name hename rfl

/-- What the link of one declaration adds to what a container holds. -/
theorem World.Arranged.declared_child {w : World} {names : List String}
    {links : List (ObjectId × ObjectId)} (hw : w.Arranged names links) {d : Declaration}
    (hmem : ∀ child, d.name? = some child → child ∈ names)
    (hdeclared : ∀ container, d.container? = some container → container ∈ names) {name : String}
    {o : ObjectId} (ho : handle? names name = some o) :
    ((declaredLinks names [d]).filter (·.2 = o)).map (fun link => w.objectName link.1) =
      declaredNames ([d].filter fun e => e.container? = some name) := by
  rw [declaredLinks, List.flatMap_singleton, declaredNames, List.filter_singleton]
  rcases hname : d.name? with _ | child
  · cases decide (d.container? = some name) <;> simp [hname]
  obtain ⟨c, hc⟩ := exists_handle? (hmem child hname)
  rw [Option.bind_some, hc, Option.elim_some, linkTo]
  rcases hcontainer : d.container? with _ | container
  · rfl
  obtain ⟨p, hp⟩ := exists_handle? (hdeclared container hcontainer)
  rw [Option.bind_some, hp]
  have hsame : p = o ↔ container = name := by
    constructor
    · rintro rfl
      exact handle?_inj hp ho
    · rintro rfl
      exact Option.some_inj.mp (hp.symm.trans ho)
  by_cases hin : container = name
  · simp [hsame.mpr hin, hin, hname, hw.objectName hc]
  · simp [mt hsame.mp hin, hin]

/-- Where all links are made, what a container holds is in the order of declaration. -/
theorem World.Arranged.declared_children {w : World} {names : List String}
    {links : List (ObjectId × ObjectId)} (hw : w.Arranged names links) {ds : List Declaration}
    (hmem : declaredNames ds ⊆ names)
    (hdeclared : ∀ d ∈ ds, ∀ container, d.container? = some container → container ∈ names)
    {name : String} {o : ObjectId} (ho : handle? names name = some o) :
    ((declaredLinks names ds).filter (·.2 = o)).map (fun link => w.objectName link.1) =
      declaredNames (ds.filter fun d => d.container? = some name) := by
  induction ds with
  | nil => rfl
  | cons d ds ih =>
    have hchild : ∀ child, d.name? = some child → child ∈ names := fun child hchild =>
      hmem (mem_declaredNames.mpr ⟨d, List.mem_cons_self, hchild⟩)
    have hfirst := hw.declared_child hchild (hdeclared d List.mem_cons_self) ho
    have hsub : declaredNames ds ⊆ declaredNames (d :: ds) :=
      List.filterMap_subset Declaration.name? (List.subset_cons_self d ds)
    have hrest := ih (fun child hmore => hmem (hsub hmore))
      fun e he => hdeclared e (List.mem_cons_of_mem d he)
    have hlinks : declaredLinks names (d :: ds) =
        declaredLinks names [d] ++ declaredLinks names ds := by
      rw [declaredLinks, declaredLinks, declaredLinks, ← List.flatMap_append]
      rfl
    rw [hlinks, List.filter_append, List.map_append, hfirst, hrest, declaredNames, declaredNames,
      ← List.filterMap_append, ← List.filter_append]
    rfl

/-- Where all links are made, the world follows the declarations. -/
theorem Placed.follows {objects : List Declaration} (hnodup : (declaredNames objects).Nodup)
    {m : Machine} (hm : Placed (declaredNames objects) objects m) : m.world.Follows objects where
  names := hm.arranged.names_eq
  places d hd name hname := by
    obtain ⟨o, ho⟩ := exists_handle? (mem_declaredNames.mpr ⟨d, hd, hname⟩)
    refine ⟨o, ?_, ?_, ?_⟩
    · rw [hm.arranged.lookup?, Declaration.canonical_name? hname]
      exact ho
    · rcases hcontainer : d.container? with _ | container
      · rw [Option.map_eq_none_iff, Option.eq_none_iff_forall_ne_some]
        intro p hp
        obtain ⟨e, he, ⟨other, hother, hhandle⟩, container, hin, -⟩ :=
          mem_declaredLinks.mp ((hm.arranged.parent o p).mp hp)
        rw [handle?_inj hhandle ho] at hother
        rw [eq_of_name? hnodup hd he hname hother, hin] at hcontainer
        cases hcontainer
      · obtain ⟨p, hp⟩ := exists_handle? (hm.declared d hd container hcontainer)
        have hlink : m.world.parent? o = some p := (hm.arranged.parent o p).mpr
          (mem_declaredLinks.mpr ⟨d, hd, ⟨name, hname, ho⟩, container, hcontainer, hp⟩)
        rw [hlink, Option.map_some, hm.arranged.objectName hp]
    · rw [hm.arranged.children, List.map_map]
      exact hm.arranged.declared_children (List.Subset.refl _) hm.declared ho

/-- Objects cannot be placed as declared: a container is not declared, or an object is declared to
be inside itself, at any depth. -/
def Misplaced (objects : List Declaration) : Prop :=
  (∃ d ∈ objects, ∃ container, d.container? = some container ∧ container ∉ declaredNames objects) ∨
    ∃ name, TransGen (DeclaredIn objects) name name

/-- A cycle of links between objects is one of places declared between their names. -/
theorem exists_cycle_of_cyclic {objects : List Declaration}
    (h : Cyclic (declaredLinks (declaredNames objects) objects)) :
    ∃ name, TransGen (DeclaredIn objects) name name := by
  let nameOf (o : ObjectId) : String := ((declaredNames objects)[o.index]?).getD ""
  have hnameOf {name : String} {o : ObjectId}
      (ho : handle? (declaredNames objects) name = some o) : nameOf o = name := by
    simp only [nameOf, getElem?_of_handle? ho, Option.getD_some]
  obtain ⟨o, ho⟩ := h
  refine ⟨nameOf o, TransGen.lift nameOf (fun c p hlink => ?_) _ _ ho⟩
  obtain ⟨d, hd, ⟨child, hchild, hc⟩, container, hcontainer, hp⟩ := mem_declaredLinks.mp hlink
  show DeclaredIn objects (nameOf c) (nameOf p)
  rw [hnameOf hc, hnameOf hp]
  exact ⟨d, hd, hchild, hcontainer⟩

/-- Where all containers are declared, a cycle of declared places is one of links. -/
theorem cyclic_of_cycle {objects : List Declaration}
    (hdeclared : ∀ d ∈ objects, ∀ container, d.container? = some container →
      container ∈ declaredNames objects) {name : String}
    (h : TransGen (DeclaredIn objects) name name) :
    Cyclic (declaredLinks (declaredNames objects) objects) := by
  let handleOf (name : String) : ObjectId := (handle? (declaredNames objects) name).getD ⟨0⟩
  have hhandleOf {name : String} (hmem : name ∈ declaredNames objects) :
      handle? (declaredNames objects) name = some (handleOf name) := by
    obtain ⟨o, ho⟩ := exists_handle? hmem
    simp only [handleOf, ho, Option.getD_some]
  refine ⟨handleOf name, TransGen.lift handleOf (fun child container hin => ?_) _ _ h⟩
  obtain ⟨d, hd, hchild, hcontainer⟩ := hin
  exact mem_declaredLinks.mpr ⟨d, hd,
    ⟨child, hchild, hhandleOf (mem_declaredNames.mpr ⟨d, hd, hchild⟩)⟩,
    container, hcontainer, hhandleOf (hdeclared d hd container hcontainer)⟩

theorem unplaceable_iff {objects : List Declaration} :
    Unplaceable (declaredNames objects) objects ↔ Misplaced objects := by
  constructor
  · exact .imp_right exists_cycle_of_cyclic
  · rintro (hmissing | ⟨name, hcycle⟩)
    · exact .inl hmissing
    · by_cases hmissing : ∃ d ∈ objects, ∃ container,
          d.container? = some container ∧ container ∉ declaredNames objects
      · exact .inl hmissing
      · refine .inr (cyclic_of_cycle (fun d hd container hcontainer => ?_) hcycle)
        by_contra hnot
        exact hmissing ⟨d, hd, container, hcontainer, hnot⟩

/-- Whether a world follows declarations only depends on its objects. -/
theorem World.Follows.of_objects {w w' : World} {objects : List Declaration}
    (h : w.Follows objects) (hobjects : w'.objects = w.objects) : w'.Follows objects := by
  cases w
  cases w'
  cases hobjects
  exact ⟨h.names, h.places⟩

/-- Filling in all objects makes all links, or else some object is misplaced. -/
theorem furnish_places {ds : List Declaration}
    (hplain : ∀ d ∈ ds.filter (·.kind.isObject), d.isPlain = true)
    (hnames : (declaredNames (ds.filter (·.kind.isObject))).Nodup) (settings : Settings)
    (fuel : Nat) {m : Machine} (hm : Placed (declaredNames (ds.filter (·.kind.isObject))) [] m) :
    (furnish settings fuel ds).Ends m
      (Placed (declaredNames (ds.filter (·.kind.isObject))) (ds.filter (·.kind.isObject)))
      (Misplaced (ds.filter (·.kind.isObject))) := by
  have hreverse : declaredNames (ds.filter (·.kind.isObject)).reverse =
      (declaredNames (ds.filter (·.kind.isObject))).reverse :=
    List.filterMap_reverse
  have hnodup : (declaredNames ((ds.filter (·.kind.isObject)).reverse ++ [])).Nodup := by
    rw [List.append_nil, hreverse]
    exact List.nodup_reverse.mpr hnames
  refine (fillObjects_place (fun d hd => hplain d (List.mem_reverse.mp hd))
    (fun name hname => List.mem_reverse.mp (hreverse ▸ hname)) hnodup hm).mono ?_ ?_
  · rw [List.reverse_reverse, List.append_nil]
    exact fun _ h => h
  · rw [List.reverse_reverse, List.append_nil]
    exact unplaceable_iff.mp

/-- Where nothing else that is declared runs code, the objects of the loaded game are those that have
been filled in. -/
theorem objects_of_load {settings : Settings} {fuel : Nat} {nodes : List Node}
    {ds : List Declaration} (hds : classify nodes = .ok ds) (hinert : ∀ d ∈ ds, d.isInert = true)
    {m m' : Machine} (hintroduce : introduce ds (.initial settings.random) = (.done (), m))
    (hfurnish : furnish settings fuel ds m = (.done (), m')) {g : Game}
    (hg : load settings fuel nodes = .done g) :
    g.machine.world.objects = m'.world.objects := by
  obtain ⟨ds', vocabulary, hds', hrun⟩ := exists_of_load hg
  rw [hds] at hds'
  cases hds'
  rw [loadDeclarations_phases, Run.bind_of_done hintroduce, Run.bind_of_done hfurnish] at hrun
  have hkeeps := complete_keepsObjects settings fuel hinert m'
  rw [hrun] at hkeeps
  exact hkeeps

/-- Let objects be declared with different names, each with at most one place, and with values that
stand as they are; and let nothing else that is declared run code.  Then filling in the objects
fails, and with it loading, exactly when a container is not declared or the declared places form a
cycle.  Otherwise every object is where it is declared to be, and what it holds is in the order of
declaration, when it has been filled in as well as in the loaded game.  All that is asked for is a
handle for each of the objects: of more than there are handles, one is refused before any is filled
in. -/
theorem load_containment {nodes : List Node} {ds : List Declaration}
    (hds : classify nodes = .ok ds)
    (hplain : ∀ d ∈ ds, d.kind.isObject = true → d.isPlain = true)
    (hnames : (declaredNames (ds.filter (·.kind.isObject))).Nodup)
    (hinert : ∀ d ∈ ds, d.isInert = true) (settings : Settings) (fuel : Nat) :
    ((declaredNames (ds.filter (·.kind.isObject))).length ≤ handleLimit →
      ∃ m, introduce ds (.initial settings.random) = (.done (), m) ∧
        ((∃ f m', furnish settings fuel ds m = (.failed f, m')) ↔
          Misplaced (ds.filter (·.kind.isObject))) ∧
        (∀ f m', furnish settings fuel ds m = (.failed f, m') →
          load settings fuel nodes = .failed f) ∧
        (¬ Misplaced (ds.filter (·.kind.isObject)) →
          ∃ m', furnish settings fuel ds m = (.done (), m') ∧
            m'.world.Follows (ds.filter (·.kind.isObject)) ∧
            ∀ g, load settings fuel nodes = .done g →
              g.machine.world.Follows (ds.filter (·.kind.isObject)))) ∧
    (handleLimit < (declaredNames (ds.filter (·.kind.isObject))).length →
      load settings fuel nodes = .failed (.ofFault (.outOfHandles "objects"))) := by
  have hobjects : ∀ d ∈ ds.filter (·.kind.isObject), d.isPlain = true := by
    intro d hd
    obtain ⟨hmem, hkind⟩ := List.mem_filter.mp hd
    exact hplain d hmem hkind
  obtain ⟨m, hintroduce, hroom, hm⟩ | ⟨m, hintroduce, hfull⟩ := introduce_ends (fun d hd =>
    (Bool.and_eq_true_iff.mp (hobjects d hd)).1) hnames settings.random
  swap
  · exact ⟨fun hroom => absurd hfull (Nat.not_lt.mpr hroom),
      fun _ => load_of_introduce_failed hds hintroduce⟩
  have hends := furnish_places hobjects hnames settings fuel hm
  refine ⟨fun _ => ?_, fun hfull => absurd hfull (Nat.not_lt.mpr hroom)⟩
  refine ⟨m, hintroduce, ⟨?_, ?_⟩,
    fun f m' hfails => load_of_furnish_failed hds hintroduce hfails, fun hplaced => ?_⟩
  · rintro ⟨f, m', hfails⟩
    cases hends with
    | done h _ =>
      rw [h] at hfails
      cases hfails
    | failed _ hwrong => exact hwrong
  · intro hwrong
    cases hends with
    | done _ hm' => exact absurd (unplaceable_iff.mpr hwrong) hm'.not_unplaceable
    | failed h _ => exact ⟨_, _, h⟩
  · cases hends with
    | failed _ hwrong => exact absurd hwrong hplaced
    | @done m' h hm' =>
      have hfollows := hm'.follows hnames
      exact ⟨m', h, hfollows, fun g hg =>
        hfollows.of_objects (objects_of_load hds hinert hintroduce h hg)⟩

/-- A house with a box in it, and things in the box that are declared before it. -/
def house : List Node :=
  [declaredObject "LAMP" [["IN", "BOX"], ["SIZE", "SMALL"]],
    declaredObject "COIN" [["loc", "box"]],
    declaredObject "BOX" [["IN", "HOUSE"], ["NORTH", "PER", "GO-NORTH"]],
    declaredObject "HOUSE" []]

/-- Three boxes, each in the next. -/
def nestedBoxes : List Node :=
  [declaredObject "RED" [["IN", "BLUE"]],
    declaredObject "BLUE" [["IN", "GREEN"]],
    declaredObject "GREEN" [["IN", "RED"]]]

theorem classify_of_admissible {nodes : List Node} (h : nodes.all Node.isAdmissible = true) :
    classify nodes = .ok (nodes.filterMap Node.declaration?) := by
  obtain ⟨-, hds⟩ | ⟨hnot, -⟩ := classify_cases nodes
  · exact hds
  · rw [h] at hnot
    cases hnot

/-- The house is loaded as it is declared; the boxes are refused. -/
theorem load_containment_house :
    (∃ g : Game, load .standard 9 house = .done g ∧
      g.machine.world.Follows ((house.filterMap Node.declaration?).filter (·.kind.isObject)) ∧
      g.machine.world.children ⟨2⟩ = [⟨0⟩, ⟨1⟩]) ∧
    ∃ f, load .standard 9 nestedBoxes = .failed f := by
  constructor
  · have hpasses : (load .standard 9 house).passes
        (fun g => g.machine.world.children ⟨2⟩ == [⟨0⟩, ⟨1⟩]) = true := by
      decide +kernel
    obtain ⟨g, hload, hchildren⟩ := Outcome.exists_of_passes hpasses
    obtain ⟨m, -, hfails, hfailed, hplaced⟩ := (load_containment
      (classify_of_admissible (by decide +kernel : house.all Node.isAdmissible = true))
      (by decide +kernel) (by decide +kernel) (by decide +kernel) .standard 9).1
      (by decide +kernel)
    have hnot : ¬ Misplaced ((house.filterMap Node.declaration?).filter (·.kind.isObject)) := by
      intro hwrong
      obtain ⟨f, m', hfurnish⟩ := hfails.mpr hwrong
      rw [hfailed f m' hfurnish] at hload
      cases hload
    obtain ⟨m', -, -, hfollows⟩ := hplaced hnot
    exact ⟨g, hload, hfollows g hload, eq_of_beq hchildren⟩
  · obtain ⟨m, -, hfails, hfailed, -⟩ := (load_containment
      (classify_of_admissible (by decide +kernel : nestedBoxes.all Node.isAdmissible = true))
      (by decide +kernel) (by decide +kernel) (by decide +kernel) .standard 9).1
      (by decide +kernel)
    have hcycle : TransGen
        (DeclaredIn ((nestedBoxes.filterMap Node.declaration?).filter (·.kind.isObject)))
        "RED" "RED" :=
      .head (by decide +kernel : DeclaredIn _ "RED" "BLUE")
        (.head (by decide +kernel : DeclaredIn _ "BLUE" "GREEN")
          (.single (by decide +kernel : DeclaredIn _ "GREEN" "RED")))
    obtain ⟨f, m', hfurnish⟩ := hfails.mpr (.inr ⟨"RED", hcycle⟩)
    exact ⟨f, hfailed f m' hfurnish⟩

end TextAdventure
