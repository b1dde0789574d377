import TextAdventure.Proofs.Program.Balance
import TextAdventure.Proofs.Program.Boundary
import TextAdventure.Proofs.Program.Fuel
import TextAdventure.Proofs.Program.ShortCircuit
import TextAdventure.Proofs.World.History
import TextAdventure.Proofs.World.Siblings

/-!
The loop over the contents of an object.

A program goes through what is in a container with a variable that stands for the first child, then
for the next sibling, and so on until there is none.  As long as nothing is moved on the way, this
is one pass for each child that was there at the start, and so the loop ends if its passes do.

* `ChildLoop` — the loop as it is written;
* `visitEach` — passes for some objects one after another, and then the end of the loop;
* `Touring` — the passes end, move nothing, and leave the variable alone;
* `Run.forever_tour` — the rounds of the loop are these passes;
* `siblings_visit_children` — siblings lead through the children, and the loop over them ends.
-/

namespace TextAdventure

/-! ### Giving a variable a value -/

theorem insertEntry_insertEntry {α : Type} (name : String) (a b : α)
    (entries : List (String × α)) :
    insertEntry name b (insertEntry name a entries) = insertEntry name b entries := by
  induction entries with
  | nil => simp [insertEntry]
  | cons entry rest ih =>
    rw [insertEntry, insertEntry]
    split
    · simp [insertEntry]
    · split
      · simp [insertEntry]
      · rename_i hne hlt
        rw [insertEntry, if_neg hne, if_neg hlt, ih]

theorem NameMap.insert_insert {α : Type} (m : NameMap α) (name : String) (a b : α) :
    (m.insert name a).insert name b = m.insert name b := by
  simp only [NameMap.insert, insertEntry_insertEntry]

theorem NameMap.contains_insert_self {α : Type} (m : NameMap α) (name : String) (a : α) :
    (m.insert name a).contains name = true := by
  simp [NameMap.contains]

namespace Frame

/-- A variable that was just bound is bound again when it is given a value. -/
theorem assign_bind (f : Frame) (x : String) (a v : Value) (assigned : Bool) :
    (f.bind x a assigned).assign x v = f.bind x v true := by
  obtain ⟨routine, outer, inner, blockDepth⟩ := f
  cases inner with
  | nil => simp only [bind, assign, replaceBinding, NameMap.insert_insert]
  | cons scope scopes =>
    simp only [bind, assign, replaceBinding, NameMap.contains_insert_self, if_true,
      NameMap.insert_insert]

/-- Replacing the first binding of a name is seen where there is one. -/
theorem findBinding_replaceBinding {name : String} {binding : Binding} {scopes scopes' : List Scope}
    (h : replaceBinding name binding scopes = some scopes') (outer : List Scope) :
    findBinding name (scopes' ++ outer) = some binding := by
  induction scopes generalizing scopes' with
  | nil => cases h
  | cons scope scopes ih =>
    rw [replaceBinding] at h
    split at h
    · cases h
      simp [findBinding]
    · rename_i habsent
      obtain ⟨rest, hrest, rfl⟩ := Option.map_eq_some_iff.mp h
      rw [List.cons_append, findBinding, ih hrest]
      rw [NameMap.contains, Bool.not_eq_true, Option.isSome_eq_false_iff,
        Option.isNone_iff_eq_none] at habsent
      rw [habsent]

theorem findBinding_of_replaceBinding_eq_none {name : String} {binding : Binding}
    {scopes : List Scope} (h : replaceBinding name binding scopes = none) (outer : List Scope) :
    findBinding name (scopes ++ outer) = findBinding name outer := by
  induction scopes with
  | nil => rfl
  | cons scope scopes ih =>
    rw [replaceBinding] at h
    split at h
    · cases h
    · rename_i habsent
      rw [NameMap.contains, Bool.not_eq_true, Option.isSome_eq_false_iff,
        Option.isNone_iff_eq_none] at habsent
      rw [List.cons_append, findBinding, habsent]
      exact ih (Option.map_eq_none_iff.mp h)

theorem get?_assign (f : Frame) (x : String) (v : Value) : (f.assign x v).get? x = some v := by
  rw [get?, binding?, assign]
  rcases hreplace : replaceBinding (canonical x) ⟨v, true⟩ f.inner with _ | scopes
  · dsimp only
    rw [findBinding_of_replaceBinding_eq_none hreplace]
    simp [findBinding]
  · dsimp only
    rw [findBinding_replaceBinding hreplace]
    rfl

end Frame

/-! ### The loop -/

/-- The usual loop over what is in a container:
`<REPEAT ((X <FIRST? container>)) <COND (<NOT .X> <RETURN>)> body … <SET X <NEXT? .X>>>`. -/
inductive ChildLoop (lib : Library) (x : String) (container : Node) (body : List Node) :
    Node → Prop
  | intro {repeated cond negation leaving setting first next : String}
      (hrepeated : lib.operations.lookup? repeated = some (.control .loop))
      (hcond : lib.operations.lookup? cond = some (.control .cond))
      (hnegation : lib.operations.lookup? negation = some (.control .negate))
      (hleaving : lib.operations.lookup? leaving = some (.control .leave))
      (hsetting : lib.operations.lookup? setting = some (.binding .assign))
      (hfirst : lib.operations.lookup? first = some (.object .firstChild))
      (hnext : lib.operations.lookup? next = some (.object .nextSibling))
      (sigil sigil' : Sigil) (s : Nat → Span) :
      ChildLoop lib x container body
        (.form repeated
          (.list [.list [.atom x (s 0), .form first [container] (s 1)] (s 2)] (s 3) ::
            .form cond [.list [.form negation [.reference sigil x (s 4)] (s 5),
              .form leaving [] (s 6)] (s 7)] (s 8) ::
            (body ++ [.form setting [.atom x (s 9),
              .form next [.reference sigil' x (s 10)] (s 11)] (s 12)]))
          (s 13))

/-- Gives a variable a value. -/
def Machine.setVariable (m : Machine) (x : String) (v : Value) : Machine :=
  { m with frame := m.frame.assign x v }

/-- A pass for each of some objects, with a variable that stands for it, and then the end of the
loop. -/
def visitEach (ev : Node → Run Value) (x : String) (body : List Node) : List ObjectId → Run Value
  | [] => do
    Run.modify (·.setVariable x (.bool false))
    Run.raise (.leave (.bool true))
  | o :: rest => do
    Run.modify (·.setVariable x (.object o))
    evalEach ev body
    visitEach ev x body rest

/-- Each pass for one of some objects ends; and if the loop goes on after it, it has moved nothing
and the variable still stands for the object. -/
def Touring (ev : Node → Run Value) (x : String) (body : List Node) :
    List ObjectId → Machine → Prop
  | [], _ => True
  | o :: rest, m =>
    (evalEach ev body (m.setVariable x (.object o))).1 ≠ .exhausted .fuel ∧
    ∀ m', evalEach ev body (m.setVariable x (.object o)) = (.done (), m') →
      m.world.SamePlaces m'.world ∧ m'.frame.get? x = some (.object o) ∧
        Touring ev x body rest m'

section

variable {ev : Node → Run Value} {x : String} {body : List Node}

theorem visitEach_cons (o : ObjectId) (rest : List ObjectId) (m : Machine) :
    visitEach ev x body (o :: rest) m =
      (evalEach ev body >>= fun _ => visitEach ev x body rest) (m.setVariable x (.object o)) :=
  rfl

/-- Passes that end make a visit that ends. -/
theorem Touring.ends {objects : List ObjectId} {m : Machine}
    (h : Touring ev x body objects m) : (visitEach ev x body objects m).1 ≠ .exhausted .fuel := by
  induction objects generalizing m with
  | nil => exact nofun
  | cons o rest ih =>
    obtain ⟨hends, hgoesOn⟩ := h
    rw [visitEach_cons]
    rcases hpass : evalEach ev body (m.setVariable x (.object o)) with ⟨⟨⟩ | s | f | what, m'⟩
    · rw [Run.bind_of_done hpass]
      exact ih (hgoesOn m' hpass).2.2
    · rw [Run.bind_of_signal hpass]
      exact nofun
    · rw [Run.bind_of_failed hpass]
      exact nofun
    · rw [Run.bind_of_exhausted hpass]
      rintro ⟨⟩
      exact hends (congrArg Prod.fst hpass)

/-- A tour is the same for a way of evaluating that agrees with another wherever that ends. -/
theorem Touring.congr {ev' : Node → Run Value}
    (hev : ∀ m, (evalEach ev body m).1 ≠ .exhausted .fuel →
      evalEach ev' body m = evalEach ev body m)
    {objects : List ObjectId} {m : Machine} (h : Touring ev x body objects m) :
    Touring ev' x body objects m ∧
      visitEach ev' x body objects m = visitEach ev x body objects m := by
  induction objects generalizing m with
  | nil => exact ⟨trivial, rfl⟩
  | cons o rest ih =>
    obtain ⟨hends, hgoesOn⟩ := h
    have hsame := hev _ hends
    refine ⟨⟨by rw [hsame]; exact hends, fun m' hpass => ?_⟩, ?_⟩
    · rw [hsame] at hpass
      obtain ⟨hplaces, hvariable, hrest⟩ := hgoesOn m' hpass
      exact ⟨hplaces, hvariable, (ih hrest).1⟩
    · rw [visitEach_cons, visitEach_cons, Run.bind_congr hsame]
      rcases hpass : evalEach ev body (m.setVariable x (.object o)) with ⟨⟨⟩ | s | f | _, m'⟩
      · rw [Run.bind_of_done hpass, Run.bind_of_done hpass]
        exact (ih (hgoesOn m' hpass).2.2).2
      · rw [Run.bind_of_signal hpass, Run.bind_of_signal hpass]
      · rw [Run.bind_of_failed hpass, Run.bind_of_failed hpass]
      · rw [Run.bind_of_exhausted hpass, Run.bind_of_exhausted hpass]

end

/-! ### The parts of the loop -/

section

variable {lib : Library} {x : String} {m : Machine}

theorem eval_variable {v : Value} (hx : m.frame.get? x = some v) (fuel : Nat) (sigil : Sigil)
    (s : Span) : eval lib (fuel + 1) (.reference sigil x s) m = (.done v, m) := by
  have hresolve : resolve lib m.world m.frame x = .ok v := by
    rw [resolve, hx]
  show Run.ofExcept (resolve lib m.world m.frame x) m = _
  rw [hresolve]
  rfl

/-- The first part of a round leaves the loop when the variable stands for nothing. -/
theorem eval_guard {v : Value} (hx : m.frame.get? x = some v) {cond negation leaving : String}
    (hcond : lib.operations.lookup? cond = some (.control .cond))
    (hnegation : lib.operations.lookup? negation = some (.control .negate))
    (hleaving : lib.operations.lookup? leaving = some (.control .leave))
    (fuel : Nat) (sigil : Sigil) (s s₁ s₂ s₃ s₄ : Span) :
    eval lib (fuel + 3) (.form cond [.list [.form negation [.reference sigil x s] s₁,
      .form leaving [] s₂] s₃] s₄) m =
      if v.isTruthy then (.done (.bool false), m)
      else (.signal (m.frame.returnSignal (.bool true)), m) := by
  have hguard : eval lib (fuel + 2) (.form negation [.reference sigil x s] s₁) m =
      (.done (.bool !v.isTruthy), m) := by
    rw [eval_operation hnegation _ (by exact Nat.le_refl 1)]
    show (eval lib (fuel + 1) (.reference sigil x s) >>= fun value =>
      pure (Value.bool !value.isTruthy)) m = _
    rw [Run.bind_of_done (eval_variable hx fuel sigil s)]
    rfl
  have hleave : eval lib (fuel + 2) (.form leaving [] s₂) m =
      (.signal (m.frame.returnSignal (.bool true)), m) := by
    rw [eval_operation hleaving _ (by exact Nat.le_refl 0)]
    exact leaveWith_apply (.bool true) m
  rw [eval_operation hcond _ (by exact Nat.zero_le 1)]
  show firstClause (eval lib (fuel + 2)) _ m = _
  rw [firstClause, Run.bind_of_done hguard]
  cases v.isTruthy with
  | true => rfl
  | false => exact Run.bind_of_signal hleave

/-- The last part of a round goes on to the next sibling. -/
theorem eval_advance {o : ObjectId} (hx : m.frame.get? x = some (.object o))
    {setting next : String} (hsetting : lib.operations.lookup? setting = some (.binding .assign))
    (hnext : lib.operations.lookup? next = some (.object .nextSibling))
    (fuel : Nat) (sigil : Sigil) (s s₁ s₂ s₃ : Span) :
    eval lib (fuel + 3) (.form setting [.atom x s, .form next [.reference sigil x s₁] s₂] s₃) m =
      (.done (.ofObject? (m.world.nextSibling? o)),
        m.setVariable x (.ofObject? (m.world.nextSibling? o))) := by
  have hvalue : eval lib (fuel + 2) (.form next [.reference sigil x s₁] s₂) m =
      (.done (.ofObject? (m.world.nextSibling? o)), m) := by
    rw [eval_operation hnext _ (by exact Nat.le_refl 1)]
    show (objectArg (eval lib (fuel + 1)) "NEXT?" (.reference sigil x s₁) >>= fun o => do
      return Value.ofObject? (← Run.readWorld (·.nextSibling? o))) m = _
    have harg : objectArg (eval lib (fuel + 1)) "NEXT?" (.reference sigil x s₁) m =
        (.done o, m) := by
      rw [objectArg, Run.bind_of_done (eval_variable hx fuel sigil s₁)]
      rfl
    rw [Run.bind_of_done harg]
    rfl
  rw [eval_operation hsetting _ (by exact Nat.le_refl 2)]
  show (eval lib (fuel + 2) (.form next [.reference sigil x s₁] s₂) >>= fun value => do
    Run.modifyFrame (·.assign (canonical x) value)
    return value) m = _
  rw [Run.bind_of_done hvalue]
  have hname (f : Frame) (v : Value) : f.assign (canonical x) v = f.assign x v := by
    rw [Frame.assign, canonical_canonical]
    rfl
  show (Outcome.done _, { m with frame := m.frame.assign (canonical x) _ }) = _
  rw [hname]
  rfl

theorem evalEach_append (ev : Node → Run Value) (before after : List Node) (m : Machine) :
    evalEach ev (before ++ after) m = (evalEach ev before >>= fun _ => evalEach ev after) m := by
  induction before generalizing m with
  | nil => rfl
  | cons node before ih =>
    show (ev node >>= fun _ => evalEach ev (before ++ after)) m =
      ((ev node >>= fun _ => evalEach ev before) >>= fun _ => evalEach ev after) m
    rcases hnode : ev node m with ⟨v | s | f | _, m'⟩
    · have hrest : (ev node >>= fun _ => evalEach ev before) m = evalEach ev before m' :=
        Run.bind_of_done hnode
      rw [Run.bind_of_done hnode, ih, Run.bind_congr hrest]
    · rw [Run.bind_of_signal hnode, Run.bind_of_signal (Run.bind_of_signal hnode)]
    · rw [Run.bind_of_failed hnode, Run.bind_of_failed (Run.bind_of_failed hnode)]
    · rw [Run.bind_of_exhausted hnode, Run.bind_of_exhausted (Run.bind_of_exhausted hnode)]

end

/-! ### The rounds of the loop -/

/-- What a loop over siblings does in the parts of its rounds that are not its body. -/
structure SteersBy (ev : Node → Run Value) (x : String) (guard advance : Node) : Prop where
  guard {m : Machine} {v : Value} (hx : m.frame.get? x = some v) :
    ev guard m = if v.isTruthy then (.done (.bool false), m)
      else (.signal (m.frame.returnSignal (.bool true)), m)
  advance {m : Machine} {o : ObjectId} (hx : m.frame.get? x = some (.object o)) :
    ev advance m = (.done (.ofObject? (m.world.nextSibling? o)),
      m.setVariable x (.ofObject? (m.world.nextSibling? o)))

section

variable {ev : Node → Run Value} {x : String} {guard advance : Node} {body : List Node}
  (hsteers : SteersBy ev x guard advance)
include hsteers

/-- Where the variable stands for nothing, a round leaves the block. -/
theorem evalEach_round_none {m : Machine} (hblock : 0 < m.frame.blockDepth) :
    evalEach ev (guard :: (body ++ [advance])) (m.setVariable x (.bool false)) =
      (.signal (.leave (.bool true)), m.setVariable x (.bool false)) := by
  have hx : (m.setVariable x (.bool false)).frame.get? x = some (.bool false) :=
    m.frame.get?_assign x _
  have hdepth : (m.setVariable x (.bool false)).frame.blockDepth = m.frame.blockDepth :=
    m.frame.blockDepth_assign x _
  have hsignal : (m.setVariable x (.bool false)).frame.returnSignal (.bool true) =
      .leave (.bool true) := by
    rw [Frame.returnSignal, Frame.inBlock, hdepth]
    exact if_pos (decide_eq_true hblock)
  show (ev guard >>= fun _ => evalEach ev (body ++ [advance])) _ = _
  rw [Run.bind_of_signal (hsteers.guard hx), hsignal]

/-- Where it stands for an object, a round is a pass and a step to the next sibling. -/
theorem evalEach_round_some (o : ObjectId) (m : Machine) :
    evalEach ev (guard :: (body ++ [advance])) (m.setVariable x (.object o)) =
      (evalEach ev body >>= fun _ => evalEach ev [advance]) (m.setVariable x (.object o)) := by
  have hx : (m.setVariable x (.object o)).frame.get? x = some (.object o) :=
    m.frame.get?_assign x _
  show (ev guard >>= fun _ => evalEach ev (body ++ [advance])) _ = _
  rw [Run.bind_of_done (hsteers.guard hx), evalEach_append]

/-- The rounds of a loop over siblings are passes over the list of children. -/
theorem forever_tour (hblocks : ∀ m, (evalEach ev body m).2.frame.blockDepth = m.frame.blockDepth)
    {p : ObjectId} {before objects : List ObjectId} {m : Machine} {rounds : Nat}
    (hrounds : objects.length < rounds) (hblock : 0 < m.frame.blockDepth) (hf : m.world.Forest)
    (hchildren : m.world.children p = before ++ objects)
    (htour : Touring ev x body objects m) :
    Run.forever (evalEach ev (guard :: (body ++ [advance]))) rounds
        (m.setVariable x (.ofObject? objects.head?)) =
      visitEach ev x body objects m := by
  induction objects generalizing before m rounds with
  | nil =>
    obtain ⟨rounds, rfl⟩ : ∃ n, rounds = n + 1 := ⟨rounds - 1, by omega⟩
    rw [Run.forever_succ]
    exact Run.bind_of_signal (evalEach_round_none hsteers hblock)
  | cons o rest ih =>
    obtain ⟨rounds, rfl⟩ : ∃ n, rounds = n + 1 := ⟨rounds - 1, by omega⟩
    rw [List.length_cons] at hrounds
    obtain ⟨-, hgoesOn⟩ := htour
    have hround : evalEach ev (guard :: (body ++ [advance])) (m.setVariable x (.object o)) =
        (evalEach ev body >>= fun _ => evalEach ev [advance]) (m.setVariable x (.object o)) :=
      evalEach_round_some hsteers o m
    rw [visitEach_cons, Run.forever_succ, List.head?_cons, Value.ofObject?, Run.bind_congr hround]
    rcases hpass : evalEach ev body (m.setVariable x (.object o)) with ⟨⟨⟩ | s | f | _, m'⟩
    · obtain ⟨hplaces, hvariable, hrest⟩ := hgoesOn m' hpass
      -- nothing has moved, so the next sibling is the next of the children
      have hnext : m'.world.nextSibling? o = rest.head? :=
        (hplaces.forest hf).nextSibling?_eq ((hplaces.children p).trans hchildren)
      have hadvance := hsteers.advance hvariable
      rw [hnext] at hadvance
      have hstep : (evalEach ev body >>= fun _ => evalEach ev [advance])
          (m.setVariable x (.object o)) =
          (.done (), m'.setVariable x (.ofObject? rest.head?)) := by
        rw [Run.bind_of_done hpass]
        show (ev advance >>= fun _ => pure ()) m' = _
        rw [Run.bind_of_done hadvance]
        rfl
      have hdepth : m'.frame.blockDepth = m.frame.blockDepth := by
        have hkept := hblocks (m.setVariable x (.object o))
        rw [hpass] at hkept
        exact hkept.trans (m.frame.blockDepth_assign x _)
      have hchildren' : m'.world.children p = (before ++ [o]) ++ rest := by
        rw [hplaces.children, hchildren, List.append_assoc]
        rfl
      rw [Run.bind_of_done hstep, Run.bind_of_done hpass]
      exact ih (by omega) (hdepth ▸ hblock) (hplaces.forest hf) hchildren' hrest
    · rw [Run.bind_of_signal (Run.bind_of_signal hpass), Run.bind_of_signal hpass]
    · rw [Run.bind_of_failed (Run.bind_of_failed hpass), Run.bind_of_failed hpass]
    · rw [Run.bind_of_exhausted (Run.bind_of_exhausted hpass), Run.bind_of_exhausted hpass]

end

/-! ### The loop as a whole -/

theorem Run.withinBlock_congr {act act' : Run Value} {m : Machine}
    (h : act { m with frame := m.frame.openBlock } = act' { m with frame := m.frame.openBlock }) :
    act.withinBlock m = act'.withinBlock m := by
  rw [Run.withinBlock, Run.withinBlock, h]

/-- The head of the loop finds the first child and binds the variable to it. -/
theorem bindBlock_first {lib : Library} {x first : String} {container : Node} {m m₁ : Machine}
    {p : ObjectId} {fuel : Nat}
    (hfirst : lib.operations.lookup? first = some (.object .firstChild))
    (hcontainer : eval lib (fuel + 2) container m = (.done (.object p), m₁))
    (round : List Node) (s s₁ s₂ s₃ : Span) :
    bindBlock (eval lib (fuel + 3))
        (.list [.list [.atom x s, .form first [container] s₁] s₂] s₃ :: round) m =
      (.done round, Machine.setVariable
        { m₁ with frame := m₁.frame.bind x (.bool false) false } x
        (.ofObject? (m₁.world.children p).head?)) := by
  have hvalue : eval lib (fuel + 3) (.form first [container] s₁) m =
      (.done (.ofObject? (m₁.world.children p).head?), m₁) := by
    have harg : objectArg (eval lib (fuel + 2)) "FIRST?" container m = (.done p, m₁) := by
      rw [objectArg, Run.bind_of_done hcontainer]
      rfl
    rw [eval_operation hfirst _ (by exact Nat.le_refl 1)]
    show (objectArg (eval lib (fuel + 2)) "FIRST?" container >>= fun o => do
      return Value.ofObject? (← Run.readWorld (·.firstChild? o))) m = _
    rw [Run.bind_of_done harg]
    rfl
  have hentry : bindEntry (eval lib (fuel + 3))
      (.list [.atom x s, .form first [container] s₁] s₂) m =
      (.done (), Machine.setVariable
        { m₁ with frame := m₁.frame.bind x (.bool false) false } x
        (.ofObject? (m₁.world.children p).head?)) := by
    rw [bindEntry, Run.bind_of_done hvalue, Machine.setVariable, Frame.assign_bind]
    rfl
  have hentries : bindEntries (eval lib (fuel + 3))
      [.list [.atom x s, .form first [container] s₁] s₂] m = _ :=
    (Run.bind_of_done hentry).trans rfl
  rw [bindBlock, Run.bind_of_done hentries]
  rfl

/-- With enough fuel for its rounds, the loop is a pass for each of the children. -/
theorem ChildLoop.eval_eq {lib : Library} {x : String} {container : Node} {body : List Node}
    {loop : Node} (hloop : ChildLoop lib x container body loop) {m m₁ : Machine} {p : ObjectId}
    {fuel : Nat}
    (hcontainer : eval lib (fuel + 2) container { m with frame := m.frame.openBlock } =
      (.done (.object p), m₁))
    (hf : m₁.world.Forest) (hlength : (m₁.world.children p).length < fuel + 3)
    (htour : Touring (eval lib (fuel + 3)) x body (m₁.world.children p)
      { m₁ with frame := m₁.frame.bind x (.bool false) false }) :
    eval lib (fuel + 4) loop m = Run.withinBlock (do
      let _ ← eval lib (fuel + 2) container
      Run.modifyFrame (·.bind x (.bool false) false)
      visitEach (eval lib (fuel + 3)) x body (m₁.world.children p)) m := by
  obtain ⟨hrepeated, hcond, hnegation, hleaving, hsetting, hfirst, hnext, sigil, sigil', s⟩ := hloop
  rw [eval_block hrepeated (.inr rfl)]
  refine Run.withinBlock_congr ?_
  have hbalance := balance_transition lib
  have hblocks (m : Machine) :
      (evalEach (eval lib (fuel + 3)) body m).2.frame.blockDepth = m.frame.blockDepth :=
    (hbalance.discipline.evalEach (hbalance.eval (fuel + 3)) body m).blocks
  have hblock : 0 < (m₁.frame.bind x (.bool false) false).blockDepth := by
    have hkept := (hbalance.eval (fuel + 2) container { m with frame := m.frame.openBlock }).blocks
    rw [hcontainer] at hkept
    rw [Frame.blockDepth_bind, hkept]
    exact Nat.succ_pos _
  have hsteers : SteersBy (eval lib (fuel + 3)) x _ _ :=
    ⟨fun hx => eval_guard hx hcond hnegation hleaving fuel sigil (s 4) (s 5) (s 6) (s 7) (s 8),
      fun hx => eval_advance hx hsetting hnext fuel sigil' (s 9) (s 10) (s 11) (s 12)⟩
  rw [ControlOp.inside, Run.bind_of_done (bindBlock_first hfirst hcontainer _ _ _ _ _), if_pos rfl,
    Run.bind_of_done hcontainer]
  exact forever_tour hsteers hblocks hlength hblock hf (List.nil_append _).symm htour

/-- What nodes do stays the same with more fuel. -/
theorem evalEach_eq_of_le {lib : Library} {fuel fuel' : Nat} (hfuel : fuel ≤ fuel')
    {nodes : List Node} {m : Machine}
    (hm : (evalEach (eval lib fuel) nodes m).1 ≠ .exhausted .fuel) :
    evalEach (eval lib fuel') nodes m = evalEach (eval lib fuel) nodes m := by
  have hlasts : Run.Lasts (fun _ => True) (evalEach (eval lib fuel) nodes)
      (evalEach (eval lib fuel') nodes) :=
    (fuel_logic lib).evalEach (s := ()) (fun _ node _ => eval_lasts lib hfuel node)
      fun _ _ => trivial
  exact ((hlasts m).resolve_left hm).1

/-- Siblings lead through the children.  In every world that can come about, going from the first
child of an object to the next sibling and on yields the children in their order, none twice, and
then nothing; and what has no container has no next sibling.  So with enough fuel the loop over
siblings, as long as it moves nothing and leaves its variable alone, is a pass through its body for
each child that was there at the start, and ends if these passes do. -/
theorem siblings_visit_children {w : World} (hw : w.Reachable) :
    (∀ p steps, w.sibling? p steps = (w.children p)[steps]?) ∧
    (∀ p, (w.children p).Nodup) ∧
    (∀ o, w.parent? o = none → w.nextSibling? o = none) ∧
    ∀ (lib : Library) (x : String) (container loop : Node) (body : List Node) (m m₁ : Machine)
      (p : ObjectId) (fuel : Nat),
      ChildLoop lib x container body loop → m.world = w →
      eval lib fuel container { m with frame := m.frame.openBlock } = (.done (.object p), m₁) →
      Touring (eval lib fuel) x body (m₁.world.children p)
        { m₁ with frame := m₁.frame.bind x (.bool false) false } →
      ∃ enough, ∀ more, enough ≤ more →
        (eval lib more loop m).1 ≠ .exhausted .fuel ∧
        eval lib more loop m = Run.withinBlock (do
          let _ ← eval lib fuel container
          Run.modifyFrame (·.bind x (.bool false) false)
          visitEach (eval lib fuel) x body (m₁.world.children p)) m := by
  have hforest := hw.forest
  refine ⟨hforest.sibling?_eq, hforest.nodup, fun o ho => ?_, ?_⟩
  · rw [World.nextSibling?, ho]
    rfl
  intro lib x container loop body m m₁ p fuel hloop hm hcontainer htour
  refine ⟨fuel + (m₁.world.children p).length + 4, fun more hmore => ?_⟩
  obtain ⟨n, rfl⟩ : ∃ n, more = n + 4 := ⟨more - 4, by omega⟩
  have hreached : m₁.world.Forest := by
    subst hm
    have hafter := (World.Reachable.eval (m := { m with frame := m.frame.openBlock }) hw lib fuel
      container).forest
    rw [hcontainer] at hafter
    exact hafter
  have hmoreContainer : eval lib (n + 2) container { m with frame := m.frame.openBlock } =
      (.done (.object p), m₁) := by
    rw [eval_eq_of_le (by omega : fuel ≤ n + 2), hcontainer]
    rw [hcontainer]
    simp
  obtain ⟨hmoreTour, hvisit⟩ :=
    htour.congr fun m hends => evalEach_eq_of_le (by omega : fuel ≤ n + 3) hends
  have heq : eval lib (n + 4) loop m = _ :=
    hloop.eval_eq hmoreContainer hreached (by omega) hmoreTour
  have hsame : eval lib (n + 4) loop m = Run.withinBlock (do
      let _ ← eval lib fuel container
      Run.modifyFrame (·.bind x (.bool false) false)
      visitEach (eval lib fuel) x body (m₁.world.children p)) m := by
    rw [heq]
    refine Run.withinBlock_congr ?_
    rw [Run.bind_of_done hmoreContainer, Run.bind_of_done hcontainer]
    exact hvisit
  refine ⟨?_, hsame⟩
  rw [hsame, Run.fst_withinBlock, Run.bind_of_done hcontainer]
  exact Outcome.leftBlock_eq_exhausted.not.mpr htour.ends

/-- A box that holds a lamp and a sword. -/
def boxDemands : List World.Demand := [
  .call (.register (.named "BOX")), .call (.register (.named "LAMP")),
  .call (.register (.named "SWORD")), .call (.move ⟨1⟩ ⟨0⟩), .call (.move ⟨2⟩ ⟨0⟩)]

/-- A loop over what is in the box, which prints a mark for each thing. -/
def boxLoop : Node :=
  .form "REPEAT" [
    .list [.list [.atom "F" default, .form "FIRST?" [.reference .comma "BOX" default] default]
      default] default,
    .form "COND" [.list [.form "NOT" [.reference .dot "F" default] default,
      .form "RETURN" [] default] default] default,
    .form "PRINTI" [.literal (.string "+") default] default,
    .form "SET" [.atom "F" default, .form "NEXT?" [.reference .dot "F" default] default] default]
    default

/-- There are two things in the box, so the loop prints two marks and ends. -/
theorem siblings_visit_children_box :
    ∃ enough, ∀ more, enough ≤ more →
      (eval .standard more boxLoop { Machine.initial .ones with world := .after boxDemands }).1 =
        .done (.bool true) ∧
      (eval .standard more boxLoop
        { Machine.initial .ones with world := .after boxDemands }).2.output = "++" := by
  have hlookup {name : String} {op : Operation}
      (h : ((Registry.operations.map (fun op => (op.name, op)) ++ Registry.aliases).reverse.find?
        fun e => e.1 = canonical name).map (·.2) = some op) :
      Library.standard.operations.lookup? name = some op :=
    (Registry.lookup?_standard name).trans h
  have hshape : ChildLoop .standard "F" (.reference .comma "BOX" default)
      [.form "PRINTI" [.literal (.string "+") default] default] boxLoop := by
    have hloop : Library.standard.operations.lookup? "REPEAT" = some (.control .loop) := hlookup rfl
    have hcond : Library.standard.operations.lookup? "COND" = some (.control .cond) := hlookup rfl
    have hnegate : Library.standard.operations.lookup? "NOT" = some (.control .negate) :=
      hlookup rfl
    have hleave : Library.standard.operations.lookup? "RETURN" = some (.control .leave) :=
      hlookup rfl
    have hset : Library.standard.operations.lookup? "SET" = some (.binding .assign) := hlookup rfl
    have hfirst : Library.standard.operations.lookup? "FIRST?" = some (.object .firstChild) :=
      hlookup rfl
    have hnext : Library.standard.operations.lookup? "NEXT?" = some (.object .nextSibling) :=
      hlookup rfl
    exact .intro hloop hcond hnegate hleave hset hfirst hnext .dot .dot fun _ => default
  have hpass : evalEach (eval .standard 3)
      [.form "PRINTI" [.literal (.string "+") default] default] =
        fun m => (.done (), { m with output := m.output ++ "+" }) := by
    have hprint : Library.standard.operations.lookup? "PRINTI" = some (.output .printText) :=
      hlookup rfl
    rw [evalEach, eval_operation hprint _ (by exact Nat.le_refl 1)]
    rfl
  have htour (objects : List ObjectId) (m : Machine) : Touring (eval .standard 3) "F"
      [.form "PRINTI" [.literal (.string "+") default] default] objects m := by
    induction objects generalizing m with
    | nil => trivial
    | cons o rest ih =>
      rw [Touring, hpass]
      refine ⟨nofun, fun m' hdone => ?_⟩
      cases hdone
      exact ⟨⟨fun _ => rfl, fun _ => rfl⟩, m.frame.get?_assign "F" (.object o), ih _⟩
  obtain ⟨-, -, -, hloop⟩ := siblings_visit_children (World.reachable_after boxDemands)
  obtain ⟨enough, hends⟩ := hloop .standard "F" _ boxLoop _
    { Machine.initial .ones with world := .after boxDemands }
    { Machine.initial .ones with world := .after boxDemands, frame := Frame.topLevel.openBlock }
    ⟨0⟩ 3 hshape rfl rfl (htour _ _)
  refine ⟨enough, fun more hmore => ?_⟩
  rw [(hends more hmore).2]
  have hchildren : (World.after boxDemands).children ⟨0⟩ = [⟨2⟩, ⟨1⟩] := rfl
  simp only [hchildren, visitEach, hpass]
  exact ⟨rfl, rfl⟩

end TextAdventure
