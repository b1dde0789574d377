import Mathlib.Data.List.Forall2
import TextAdventure.Command.Scope
import TextAdventure.Proofs.Play.Reachable

/-!
Scope is reachability.

What is in scope is what one gets to from the actor, the location and the container of what is
everywhere by going down through open and transparent objects, past the actor.  The search keeps
one list for all three and passes over everything that is in it already, with all that is below;
in a forest nothing is lost by that.

* `Reveals` — one object is to be seen in another, at any depth;
* `Walk` — the depth-first walk through some objects and what they show, repetitions and all;
* `collect_eq` — a search adds the new objects of a walk, in their order;
* `visibleObjects_eq` — so the objects in scope are those of the walks from the roots, each at its
  first occurrence;
* `visibleObjects_reachability` — what is in scope, how often and in which order.

Design notes.  While a search is under way, what a container above shows is not yet in the list.
So the invariant leaves out the containers around the current one (`AtOrAbove`), and that no
object is inside itself says that the search never meets one of them.
-/

namespace TextAdventure.World

open Relation

/-! ### What can be seen in an object -/

/-- `x` is to be seen in a container: it is in there, or in something in there that is open or
transparent, and the actor is not on the way. -/
inductive Reveals (w : World) (actor : Option ObjectId) : ObjectId → ObjectId → Prop
  | child {r c : ObjectId} (hc : c ∈ w.children r) (hactor : some c ≠ actor) :
      Reveals w actor r c
  | inside {r c x : ObjectId} (hc : c ∈ w.children r) (hactor : some c ≠ actor)
      (hshows : w.showsContents c = true) (hx : Reveals w actor c x) : Reveals w actor r x

theorem reveals_iff {w : World} {actor : Option ObjectId} {r x : ObjectId} :
    w.Reveals actor r x ↔ ∃ c ∈ w.children r, some c ≠ actor ∧
      (x = c ∨ w.showsContents c = true ∧ w.Reveals actor c x) := by
  constructor
  · rintro (⟨hc, hactor⟩ | ⟨hc, hactor, hshows, hx⟩)
    · exact ⟨x, hc, hactor, .inl rfl⟩
    · exact ⟨_, hc, hactor, .inr ⟨hshows, hx⟩⟩
  · rintro ⟨c, hc, hactor, rfl | ⟨hshows, hx⟩⟩
    · exact .child hc hactor
    · exact .inside hc hactor hshows hx

theorem showsContents_iff {w : World} {o : ObjectId} :
    w.showsContents o = true ↔ w.flag o "OPENBIT" = true ∨ w.flag o "TRANSBIT" = true := by
  rw [showsContents, Bool.or_eq_true]

/-- What can be seen in a container is at the end of a chain of child links that passes only
through open and transparent objects and never through the actor. -/
theorem reveals_iff_chain {w : World} {actor : Option ObjectId} {r x : ObjectId} :
    w.Reveals actor r x ↔ ∃ cs : List ObjectId, cs.getLast? = some x ∧
      (r :: cs).IsChain (fun p c => c ∈ w.children p) ∧ (∀ c ∈ cs, some c ≠ actor) ∧
      ∀ c ∈ cs.dropLast, w.flag c "OPENBIT" = true ∨ w.flag c "TRANSBIT" = true := by
  constructor
  · intro h
    induction h with
    | child hc hactor =>
      exact ⟨[_], rfl, .cons_cons hc (.singleton _), by simpa using hactor, nofun⟩
    | @inside r c x hc hactor hshows _ ih =>
      obtain ⟨cs, hlast, hchain, hcs, hflags⟩ := ih
      have hne : cs ≠ [] := by
        rintro rfl
        cases hlast
      refine ⟨c :: cs, ?_, .cons_cons hc hchain, List.forall_mem_cons.mpr ⟨hactor, hcs⟩, ?_⟩
      · rw [List.getLast?_cons, hlast]
        rfl
      · rw [List.dropLast_cons_of_ne_nil hne]
        exact List.forall_mem_cons.mpr ⟨showsContents_iff.mp hshows, hflags⟩
  · rintro ⟨cs, hlast, hchain, hcs, hflags⟩
    induction cs generalizing r with
    | nil => cases hlast
    | cons c cs ih =>
      obtain ⟨hc, hchain⟩ := List.isChain_cons_cons.mp hchain
      obtain ⟨hactor, hcs⟩ := List.forall_mem_cons.mp hcs
      cases cs with
      | nil =>
        cases hlast
        exact .child hc hactor
      | cons d ds =>
        rw [List.dropLast_cons_of_ne_nil (List.cons_ne_nil d ds)] at hflags
        obtain ⟨hshows, hflags⟩ := List.forall_mem_cons.mp hflags
        rw [List.getLast?_cons_cons] at hlast
        exact .inside hc hactor (showsContents_iff.mpr hshows) (ih hlast hchain hcs hflags)

/-! ### Walks -/

/-- The depth-first walk through some objects: each of them but the actor, and at once what is to
be seen in it. -/
inductive Walk (w : World) (actor : Option ObjectId) : List ObjectId → List ObjectId → Prop
  | nil : Walk w actor [] []
  | pass {c : ObjectId} {cs out : List ObjectId} (hactor : some c = actor)
      (hrest : Walk w actor cs out) : Walk w actor (c :: cs) out
  | closed {c : ObjectId} {cs out : List ObjectId} (hactor : some c ≠ actor)
      (hshows : w.showsContents c = false) (hrest : Walk w actor cs out) :
      Walk w actor (c :: cs) (c :: out)
  | enter {c : ObjectId} {cs inner out : List ObjectId} (hactor : some c ≠ actor)
      (hshows : w.showsContents c = true) (hinner : Walk w actor (w.children c) inner)
      (hrest : Walk w actor cs out) : Walk w actor (c :: cs) (c :: (inner ++ out))

namespace Walk

variable {w : World} {actor : Option ObjectId} {cs out out' : List ObjectId}

theorem unique (h : w.Walk actor cs out) (h' : w.Walk actor cs out') : out = out' := by
  induction h generalizing out' with
  | nil =>
    cases h'
    rfl
  | pass hactor _ ih =>
    cases h' with
    | pass _ hrest => exact ih hrest
    | closed hne => exact absurd hactor hne
    | enter hne => exact absurd hactor hne
  | closed hactor hshows _ ih =>
    cases h' with
    | pass heq => exact absurd heq hactor
    | closed _ _ hrest => rw [ih hrest]
    | enter _ hopen => rw [hshows] at hopen; cases hopen
  | enter hactor hshows _ _ ihinner ih =>
    cases h' with
    | pass heq => exact absurd heq hactor
    | closed _ hclosed => rw [hshows] at hclosed; cases hclosed
    | enter _ _ hinner hrest => rw [ihinner hinner, ih hrest]

theorem mem_iff (h : w.Walk actor cs out) {x : ObjectId} :
    x ∈ out ↔ ∃ c ∈ cs, some c ≠ actor ∧
      (x = c ∨ w.showsContents c = true ∧ w.Reveals actor c x) := by
  induction h with
  | nil => simp
  | pass hactor _ ih => simp [ih, hactor]
  | closed hactor hshows _ ih => simp [ih, hactor, hshows]
  | enter hactor hshows _ _ ihinner ih =>
    rw [← reveals_iff] at ihinner
    simp [ih, ihinner, hactor, hshows, or_assoc]

/-- A walk takes along all that an object on it shows. -/
theorem mem_of_shows (h : w.Walk actor cs out) {x d : ObjectId} (hx : x ∈ out)
    (hshows : w.showsContents x = true) (hd : d ∈ w.children x) (hactor : some d ≠ actor) :
    d ∈ out := by
  induction h with
  | nil => cases hx
  | pass _ _ ih => exact ih hx
  | closed _ hclosed _ ih =>
    rcases List.mem_cons.mp hx with rfl | hx
    · rw [hshows] at hclosed
      cases hclosed
    · exact List.mem_cons_of_mem _ (ih hx)
  | enter _ _ hinner _ ihinner ih =>
    rcases List.mem_cons.mp hx with rfl | hx
    · have hseen := hinner.mem_iff.mpr ⟨d, hd, hactor, .inl rfl⟩
      exact List.mem_cons_of_mem _ (List.mem_append_left _ hseen)
    · rcases List.mem_append.mp hx with hx | hx
      · exact List.mem_cons_of_mem _ (List.mem_append_left _ (ihinner hx))
      · exact List.mem_cons_of_mem _ (List.mem_append_right _ (ih hx))

end Walk

/-! ### Every container has a walk -/

theorem Walk.exists_of_forall {w : World} {actor : Option ObjectId} {cs : List ObjectId}
    (h : ∀ c ∈ cs, ∃ inner, w.Walk actor (w.children c) inner) : ∃ out, w.Walk actor cs out := by
  induction cs with
  | nil => exact ⟨[], .nil⟩
  | cons c cs ih =>
    obtain ⟨⟨inner, hinner⟩, hcs⟩ := List.forall_mem_cons.mp h
    obtain ⟨out, hout⟩ := ih hcs
    by_cases hactor : some c = actor
    · exact ⟨out, .pass hactor hout⟩
    · cases hshows : w.showsContents c with
      | false => exact ⟨c :: out, .closed hactor hshows hout⟩
      | true => exact ⟨c :: (inner ++ out), .enter hactor hshows hinner hout⟩

/-- A child is one level further down. -/
theorem Forest.climb_child {w : World} (hf : Forest w) {p c top : ObjectId} {k : Nat}
    (hc : c ∈ w.children p) (hk : w.climb k p = some top) : w.climb (k + 1) c = some top := by
  rw [climb, (hf.mem_children c p).mp hc]
  exact hk

theorem Forest.exists_walk {w : World} (hf : Forest w) (actor : Option ObjectId) (r : ObjectId) :
    ∃ out, w.Walk actor (w.children r) out := by
  -- the further down a container is, the fewer levels can be below it
  have hlevels : ∀ n k p top, w.climb k p = some top → w.objects.length ≤ n + k →
      ∃ out, w.Walk actor (w.children p) out := by
    intro n
    induction n with
    | zero =>
      intro k p top hk hlen
      refine Walk.exists_of_forall fun c hc => ?_
      have := hf.climb_lt (hf.climb_child hc hk)
      omega
    | succ n ih =>
      intro k p top hk hlen
      refine Walk.exists_of_forall fun c hc => ?_
      exact ih (k + 1) c top (hf.climb_child hc hk) (by omega)
  exact hlevels w.objects.length 0 r r rfl (by omega)

/-! ### The search for what is in scope -/

theorem eraseDups_append_of_subset {xs ys : List ObjectId} (h : ys ⊆ xs) :
    (xs ++ ys).eraseDups = xs.eraseDups := by
  have hnone : ys.removeAll xs = [] := by
    rw [List.removeAll, List.filter_eq_nil_iff]
    intro y hy
    simpa using h hy
  rw [List.eraseDups_append, hnone, List.eraseDups_nil, List.append_nil]

theorem eraseDups_append_singleton {xs : List ObjectId} {y : ObjectId} (h : y ∉ xs) :
    (xs ++ [y]).eraseDups = xs.eraseDups ++ [y] := by
  have hnew : [y].removeAll xs = [y] := by
    rw [List.removeAll, List.filter_eq_self]
    simpa using h
  rw [List.eraseDups_append, hnew, List.eraseDups_cons]
  rfl

/-- The scope holds all that an object shows. -/
def Covers (w : World) (actor : Option ObjectId) (scope : List ObjectId) (x : ObjectId) : Prop :=
  w.showsContents x = true → ∀ d ∈ w.children x, some d ≠ actor → d ∈ scope

theorem Covers.mono {w : World} {actor : Option ObjectId} {scope scope' : List ObjectId}
    (hsub : scope ⊆ scope') {x : ObjectId} (h : w.Covers actor scope x) :
    w.Covers actor scope' x :=
  fun hshows d hd hactor => hsub (h hshows d hd hactor)

/-- `x` is an object or one of the containers around it. -/
def AtOrAbove (w : World) (x o : ObjectId) : Prop :=
  ReflTransGen (fun c p => w.parent? c = some p) o x

theorem Forest.not_atOrAbove_child {w : World} (hf : Forest w) {p c : ObjectId}
    (hc : c ∈ w.children p) : ¬ w.AtOrAbove c p := by
  intro h
  exact hf.acyclic c (.head' ((hf.mem_children c p).mp hc) h)

/-- If no object of a walk is around the current container, then all that the walk meets is in
the scope already. -/
theorem Walk.subset_scope {w : World} (hf : Forest w) {actor : Option ObjectId}
    {cs out : List ObjectId} (h : w.Walk actor cs out) {p : ObjectId} {scope : List ObjectId}
    (hscope : ∀ x ∈ scope, ¬ w.AtOrAbove x p → w.Covers actor scope x)
    (hcs : ∀ c ∈ cs, some c ≠ actor → c ∈ scope) (hp : ∀ c ∈ cs, ¬ w.AtOrAbove c p) :
    out ⊆ scope := by
  induction h with
  | nil => exact List.nil_subset _
  | pass _ _ ih =>
    exact ih (List.forall_mem_cons.mp hcs).2 (List.forall_mem_cons.mp hp).2
  | closed hactor _ _ ih =>
    obtain ⟨hc, hcs⟩ := List.forall_mem_cons.mp hcs
    exact List.cons_subset.mpr ⟨hc hactor, ih hcs (List.forall_mem_cons.mp hp).2⟩
  | @enter c cs inner out hactor hshows _ _ ihinner ih =>
    obtain ⟨hc, hcs⟩ := List.forall_mem_cons.mp hcs
    obtain ⟨hcp, hp⟩ := List.forall_mem_cons.mp hp
    refine List.cons_subset.mpr ⟨hc hactor, List.append_subset.mpr ⟨ihinner ?_ ?_, ih hcs hp⟩⟩
    · exact hscope c (hc hactor) hcp hshows
    -- what is inside `c` is not around the container unless `c` is
    · intro d hd hdp
      exact hcp (hdp.tail ((hf.mem_children d c).mp hd))

/-- A scope that a walk has been added to holds what the objects on the walk show. -/
theorem Walk.covers_append {w : World} {actor : Option ObjectId} {cs out : List ObjectId}
    (h : w.Walk actor cs out) {pending : ObjectId → Prop} {scope : List ObjectId}
    (hscope : ∀ x ∈ scope, ¬ pending x → w.Covers actor scope x) :
    ∀ x ∈ scope ++ out, ¬ pending x → w.Covers actor (scope ++ out) x := by
  intro x hx hpending
  rcases List.mem_append.mp hx with hx | hx
  · exact (hscope x hx hpending).mono (List.subset_append_left _ _)
  · intro hshows d hd hactor
    exact List.mem_append_right _ (h.mem_of_shows hx hshows hd hactor)

/-- What a search does with one child of a container. -/
def meet (w : World) (actor : Option ObjectId) (depth : Nat) (scope : List ObjectId)
    (child : ObjectId) : List ObjectId :=
  if some child = actor ∨ child ∈ scope then scope
  else
    let scope := scope ++ [child]
    if w.showsContents child then w.collect actor depth scope child else scope

theorem collect_succ (w : World) (actor : Option ObjectId) (depth : Nat) (scope : List ObjectId)
    (container : ObjectId) :
    w.collect actor (depth + 1) scope container =
      (w.children container).foldl (w.meet actor depth) scope := by
  rw [collect]
  rfl

/-- Going through children adds the new objects of their walk, each at its first occurrence.  What
the containers around them show need not be in the scope yet. -/
theorem Walk.foldl_meet {w : World} (hf : Forest w) {actor : Option ObjectId}
    {cs out : List ObjectId} (h : w.Walk actor cs out) {n k : Nat} {p top : ObjectId}
    {scope : List ObjectId} (hcs : ∀ c ∈ cs, c ∈ w.children p) (hk : w.climb k p = some top)
    (hlen : w.objects.length ≤ n + 1 + k)
    (hscope : ∀ x ∈ scope, ¬ w.AtOrAbove x p → w.Covers actor scope x) :
    cs.foldl (w.meet actor n) scope.eraseDups = (scope ++ out).eraseDups := by
  induction h generalizing n k p top scope with
  | nil => rw [List.foldl_nil, List.append_nil]
  | pass hactor _ ih =>
    rw [List.foldl_cons, meet, if_pos (.inl hactor)]
    exact ih (List.forall_mem_cons.mp hcs).2 hk hlen hscope
  | @closed c cs out hactor hshows _ ih =>
    have hmeet : w.meet actor n scope.eraseDups c = (scope ++ [c]).eraseDups := by
      by_cases hc : c ∈ scope
      · rw [meet, if_pos (.inr (List.mem_eraseDups.mpr hc)),
          eraseDups_append_of_subset (by simpa using hc)]
      · rw [meet, if_neg (by simpa using ⟨hactor, hc⟩), hshows, eraseDups_append_singleton hc]
        rfl
    have hscope' := (Walk.closed hactor hshows .nil).covers_append hscope
    rw [List.foldl_cons, hmeet, ih (List.forall_mem_cons.mp hcs).2 hk hlen hscope',
      List.append_assoc, List.singleton_append]
  | @enter c cs inner out hactor hshows hinner _ ihinner ih =>
    obtain ⟨hcp, hcs⟩ := List.forall_mem_cons.mp hcs
    have hck := hf.climb_child hcp hk
    have hmeet : w.meet actor n scope.eraseDups c = (scope ++ c :: inner).eraseDups := by
      by_cases hc : c ∈ scope
      -- `c` has been met before and is not around the container, so all it shows is there
      · have hsub : c :: inner ⊆ scope := by
          refine List.cons_subset.mpr ⟨hc, hinner.subset_scope hf hscope ?_ ?_⟩
          · exact hscope c hc (hf.not_atOrAbove_child hcp) hshows
          · intro d hd hdp
            exact hf.not_atOrAbove_child hcp (hdp.tail ((hf.mem_children d c).mp hd))
        rw [meet, if_pos (.inr (List.mem_eraseDups.mpr hc)), eraseDups_append_of_subset hsub]
      · rw [meet, if_neg (by simpa using ⟨hactor, hc⟩), hshows, ← eraseDups_append_singleton hc]
        obtain ⟨n, rfl⟩ : ∃ m, n = m + 1 := ⟨n - 1, by have := hf.climb_lt hck; omega⟩
        have hscope' : ∀ x ∈ scope ++ [c], ¬ w.AtOrAbove x c →
            w.Covers actor (scope ++ [c]) x := by
          intro x hx hxc
          rcases List.mem_append.mp hx with hx | hx
          · refine (hscope x hx fun hxp => hxc ?_).mono (List.subset_append_left _ _)
            exact .head ((hf.mem_children c p).mp hcp) hxp
          · exact absurd (List.mem_singleton.mp hx ▸ .refl) hxc
        show w.collect actor (n + 1) _ c = _
        rw [collect_succ, ihinner (fun _ hd => hd) hck (by omega) hscope', List.append_assoc,
          List.singleton_append]
    have hscope' := (Walk.enter hactor hshows hinner .nil).covers_append hscope
    rw [List.append_nil] at hscope'
    rw [List.foldl_cons, hmeet, ih hcs hk hlen hscope', List.append_assoc, List.cons_append]

/-- A search from a container adds the new objects of its walk. -/
theorem Forest.collect_eq {w : World} (hf : Forest w) {actor : Option ObjectId} {r : ObjectId}
    {walk scope : List ObjectId} (h : w.Walk actor (w.children r) walk)
    (hscope : ∀ x ∈ scope, w.Covers actor scope x) :
    w.collect actor (w.objects.length + 1) scope.eraseDups r = (scope ++ walk).eraseDups := by
  rw [collect_succ]
  exact h.foldl_meet hf (fun _ hc => hc) (k := 0) rfl (by omega) fun x hx _ => hscope x hx

theorem Forest.foldl_collect_eq {w : World} (hf : Forest w) {actor : Option ObjectId}
    {roots : List ObjectId} {walks : List (List ObjectId)}
    (h : List.Forall₂ (fun r walk => w.Walk actor (w.children r) walk) roots walks)
    {scope : List ObjectId} (hscope : ∀ x ∈ scope, w.Covers actor scope x) :
    roots.foldl (w.collect actor (w.objects.length + 1)) scope.eraseDups =
      (scope ++ walks.flatten).eraseDups := by
  induction h generalizing scope with
  | nil => rw [List.foldl_nil, List.flatten_nil, List.append_nil]
  | cons hwalk _ ih =>
    have hcovers : ∀ x ∈ scope, ¬ False → w.Covers actor scope x := fun x hx _ => hscope x hx
    have hscope' := hwalk.covers_append hcovers
    rw [List.foldl_cons, hf.collect_eq hwalk hscope, ih fun x hx => hscope' x hx not_false,
      List.flatten_cons, List.append_assoc]

/-- The objects in scope are those of the walks from the roots, each at its first occurrence. -/
theorem Forest.visibleObjects_eq {w : World} (hf : Forest w) {actor location : Option ObjectId}
    {walks : List (List ObjectId)}
    (h : List.Forall₂ (fun r walk => w.Walk actor (w.children r) walk)
      (w.scopeRoots actor location) walks) :
    w.visibleObjects actor location = walks.flatten.eraseDups := by
  have hnone : ∀ x ∈ ([] : List ObjectId), w.Covers actor [] x := nofun
  exact hf.foldl_collect_eq h hnone

theorem nodup_eraseDups (xs : List ObjectId) : xs.eraseDups.Nodup := by
  induction xs using List.reverseRecOn with
  | nil => exact List.nodup_nil
  | append_singleton xs y ih =>
    by_cases hy : y ∈ xs
    · rwa [eraseDups_append_of_subset (by simpa using hy)]
    · rw [eraseDups_append_singleton hy]
      refine List.nodup_append.mpr ⟨ih, List.nodup_singleton y, ?_⟩
      rintro x hx z hz rfl
      exact hy (List.mem_singleton.mp hz ▸ List.mem_eraseDups.mp hx)

/-! ### Scope -/

/-- Where the search for what is in scope begins: at the actor, at the location or, if none is
given, at the container of the actor, and at the container of what is everywhere. -/
inductive ScopeRoot (w : World) (actor location : Option ObjectId) : ObjectId → Prop
  | actor {r : ObjectId} (h : actor = some r) : ScopeRoot w actor location r
  | location {r : ObjectId} (h : location = some r) : ScopeRoot w actor location r
  | around {a r : ObjectId} (hnone : location = none) (ha : actor = some a)
      (h : w.parent? a = some r) : ScopeRoot w actor location r
  | everywhere {r : ObjectId} (h : w.lookup? "GLOBAL-OBJECTS" = some r) :
      ScopeRoot w actor location r

/-- The search begins at the actor, goes on at the location or around the actor, and ends with what
is everywhere. -/
theorem scopeRoots_eq (w : World) (actor location : Option ObjectId) :
    w.scopeRoots actor location =
      actor.toList ++ ((location.or (actor.bind w.parent?)).toList ++
        (w.lookup? "GLOBAL-OBJECTS").toList) := by
  rw [scopeRoots]
  cases actor <;> cases location.or _ <;> cases w.lookup? "GLOBAL-OBJECTS" <;> rfl

theorem mem_scopeRoots {w : World} {actor location : Option ObjectId} {r : ObjectId} :
    r ∈ w.scopeRoots actor location ↔ w.ScopeRoot actor location r := by
  have hmem : r ∈ w.scopeRoots actor location ↔ actor = some r ∨
      location.or (actor.bind w.parent?) = some r ∨ w.lookup? "GLOBAL-OBJECTS" = some r := by
    simp [scopeRoots, List.mem_filterMap, eq_comm]
  rw [hmem]
  constructor
  · rintro (h | h | h)
    · exact .actor h
    · cases location with
      | some l => exact .location h
      | none =>
        obtain ⟨a, ha, hr⟩ := Option.bind_eq_some_iff.mp h
        exact .around rfl ha hr
    · exact .everywhere h
  · rintro (h | h | ⟨rfl, rfl, h⟩ | h)
    · exact .inl h
    · rw [h]
      exact .inr (.inl rfl)
    · exact .inr (.inl h)
    · exact .inr (.inr h)

theorem Forest.exists_walks {w : World} (hf : Forest w) (actor : Option ObjectId)
    (roots : List ObjectId) :
    ∃ walks, List.Forall₂ (fun r walk => w.Walk actor (w.children r) walk) roots walks := by
  induction roots with
  | nil => exact ⟨[], .nil⟩
  | cons r roots ih =>
    obtain ⟨walk, hwalk⟩ := hf.exists_walk actor r
    obtain ⟨walks, hwalks⟩ := ih
    exact ⟨walk :: walks, .cons hwalk hwalks⟩

theorem mem_flatten_walks {w : World} {actor : Option ObjectId} {roots : List ObjectId}
    {walks : List (List ObjectId)}
    (h : List.Forall₂ (fun r walk => w.Walk actor (w.children r) walk) roots walks)
    {x : ObjectId} : x ∈ walks.flatten ↔ ∃ r ∈ roots, w.Reveals actor r x := by
  induction h with
  | nil => simp
  | cons hwalk _ ih =>
    have hfirst := hwalk.mem_iff (x := x)
    rw [← reveals_iff] at hfirst
    simp [ih, hfirst]

/-- What is in scope is what can be seen in a root. -/
theorem Forest.mem_visibleObjects {w : World} (hf : Forest w) {actor location : Option ObjectId}
    {x : ObjectId} : x ∈ w.visibleObjects actor location ↔
      ∃ r, w.ScopeRoot actor location r ∧ w.Reveals actor r x := by
  obtain ⟨walks, hwalks⟩ := hf.exists_walks actor (w.scopeRoots actor location)
  rw [hf.visibleObjects_eq hwalks, List.mem_eraseDups, mem_flatten_walks hwalks]
  simp only [mem_scopeRoots]

theorem Forest.nodup_visibleObjects {w : World} (hf : Forest w)
    (actor location : Option ObjectId) : (w.visibleObjects actor location).Nodup := by
  obtain ⟨walks, hwalks⟩ := hf.exists_walks actor (w.scopeRoots actor location)
  rw [hf.visibleObjects_eq hwalks]
  exact nodup_eraseDups _

theorem Reveals.ne_actor {w : World} {actor : Option ObjectId} {r x : ObjectId}
    (h : w.Reveals actor r x) : some x ≠ actor := by
  induction h with
  | child _ hactor => exact hactor
  | inside _ _ _ _ ih => exact ih

/-- Scope is reachability.  An object is in scope exactly when it is not the actor and a chain of
child links leads to it from a root, of which no member is the actor and all but the last are open
or transparent.  No object is in scope twice.  From every object there is one depth-first walk, and
the objects in scope are those of the walks from the roots in turn, each at its first occurrence:
from the actor, from the location or else the container of the actor, and from the container of what
is everywhere. -/
theorem visibleObjects_reachability {w : World} (hf : w.Forest)
    (actor location : Option ObjectId) :
    (∀ x, x ∈ w.visibleObjects actor location ↔
      some x ≠ actor ∧ ∃ r, w.ScopeRoot actor location r ∧
        ∃ cs : List ObjectId, cs.getLast? = some x ∧
          (r :: cs).IsChain (fun p c => c ∈ w.children p) ∧ (∀ c ∈ cs, some c ≠ actor) ∧
          ∀ c ∈ cs.dropLast, w.flag c "OPENBIT" = true ∨ w.flag c "TRANSBIT" = true) ∧
    (w.visibleObjects actor location).Nodup ∧
    (∀ r, ∃! walk, w.Walk actor (w.children r) walk) ∧
    ∀ walks, List.Forall₂ (fun r walk => w.Walk actor (w.children r) walk)
        (actor.toList ++ ((location.or (actor.bind w.parent?)).toList ++
          (w.lookup? "GLOBAL-OBJECTS").toList)) walks →
      w.visibleObjects actor location = walks.flatten.eraseDups := by
  refine ⟨fun x => ?_, hf.nodup_visibleObjects actor location, fun r => ?_,
    fun _ hwalks => hf.visibleObjects_eq (w.scopeRoots_eq actor location ▸ hwalks)⟩
  · simp only [hf.mem_visibleObjects, ← reveals_iff_chain]
    constructor
    · rintro ⟨r, hr, hx⟩
      exact ⟨hx.ne_actor, r, hr, hx⟩
    · rintro ⟨-, hx⟩
      exact hx
  · obtain ⟨walk, hwalk⟩ := hf.exists_walk actor r
    exact ⟨walk, hwalk, fun _ h => h.unique hwalk⟩

end TextAdventure.World

namespace TextAdventure

/-- Whether an outcome is a value that passes a test. -/
def Outcome.passes {α : Type} (test : α → Bool) : Outcome α → Bool
  | .done a => test a
  | _ => false

theorem Outcome.exists_of_passes {α : Type} {test : α → Bool} {outcome : Outcome α}
    (h : outcome.passes test = true) : ∃ a, outcome = .done a ∧ test a = true := by
  cases outcome with
  | done a => exact ⟨a, rfl, h⟩
  | _ => cases h

/-- An object declared with some clauses, each a name and the words behind it. -/
def declaredObject (name : String) (clauses : List (List String)) : Node :=
  .form "OBJECT" (.atom name default ::
    clauses.map fun words => .list (words.map fun word => .atom word default) default) default

/-- A player with an open sack, and a closed box beside him. -/
def attic : List Node :=
  [declaredObject "ATTIC" [],
    declaredObject "PLAYER" [["IN", "ATTIC"]],
    declaredObject "SACK" [["IN", "PLAYER"], ["FLAGS", "OPENBIT"], ["SYNONYM", "SACK"]],
    declaredObject "BRASS-LAMP" [["IN", "SACK"], ["SYNONYM", "LAMP"], ["ADJECTIVE", "BRASS"]],
    declaredObject "OIL-LAMP" [["IN", "ATTIC"], ["SYNONYM", "LAMP"], ["ADJECTIVE", "OIL"]],
    declaredObject "BOX" [["IN", "ATTIC"]],
    declaredObject "COIN" [["IN", "BOX"], ["SYNONYM", "COIN"]]]

/-- The attic, with an open niche and a key in it that are everywhere. -/
def atticWithNiche : List Node :=
  attic ++ [declaredObject "GLOBAL-OBJECTS" [],
    declaredObject "NICHE" [["IN", "GLOBAL-OBJECTS"], ["FLAGS", "OPENBIT"]],
    declaredObject "KEY" [["IN", "NICHE"]]]

/-- The player can refer to the sack, to the lamp in it and, beside him, to the other lamp and the
box, and at last to the niche and the key in it; but not to the coin, which no chain of open
containers leads to. -/
theorem visibleObjects_reachability_attic :
    ∃ g : Game, load .standard 9 atticWithNiche = .done g ∧ g.machine.world.Forest ∧
      g.machine.world.lookup? "GLOBAL-OBJECTS" = some ⟨7⟩ ∧
      g.machine.world.visibleObjects (some ⟨1⟩) none = [⟨2⟩, ⟨3⟩, ⟨4⟩, ⟨5⟩, ⟨8⟩, ⟨9⟩] ∧
      ∀ r, g.machine.world.ScopeRoot (some ⟨1⟩) none r →
        ¬ ∃ cs : List ObjectId, cs.getLast? = some ⟨6⟩ ∧
          (r :: cs).IsChain (fun p c => c ∈ g.machine.world.children p) ∧
          (∀ c ∈ cs, some c ≠ some ⟨1⟩) ∧
          ∀ c ∈ cs.dropLast, g.machine.world.flag c "OPENBIT" = true ∨
            g.machine.world.flag c "TRANSBIT" = true := by
  have hpasses : (load .standard 9 atticWithNiche).passes (fun g =>
      decide (g.machine.world.lookup? "GLOBAL-OBJECTS" = some ⟨7⟩ ∧
        g.machine.world.visibleObjects (some ⟨1⟩) none =
          [⟨2⟩, ⟨3⟩, ⟨4⟩, ⟨5⟩, ⟨8⟩, ⟨9⟩])) = true := by
    decide +kernel
  obtain ⟨g, hload, htest⟩ := Outcome.exists_of_passes hpasses
  obtain ⟨heverywhere, hscope⟩ := of_decide_eq_true htest
  have hforest := (World.Reachable.load hload).forest
  refine ⟨g, hload, hforest, heverywhere, hscope, fun r hr hchain => ?_⟩
  have hcoin := ((World.visibleObjects_reachability hforest (some ⟨1⟩) none).1 ⟨6⟩).mpr
    ⟨by decide, r, hr, hchain⟩
  rw [hscope] at hcoin
  revert hcoin
  decide

end TextAdventure
