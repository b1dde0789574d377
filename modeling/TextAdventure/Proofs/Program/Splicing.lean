import TextAdventure.Proofs.Program.Fuel

/-!
Splicing a list is writing its items in place.

The value of a spliced list is flattened into the arguments around it.  A list literal evaluates
its items from left to right, each time as arguments are evaluated, so whether the items stand in a
spliced literal or in its place, the same things happen in the same order, and a signal or a failure
ends both at the same point.

* `evalAll_append` — evaluating nodes in a row is evaluating the first ones and then the others;
* `evalAll_splice` — a spliced literal evaluates its items in between;
* `ComesTo` — how the evaluation of some nodes ends, apart from fuel;
* `evalAll_splice_in_place` — it ends alike with a spliced literal and with its items.

Design notes.  A literal and the splice around it nest two deeper than the items alone, so their
runs agree only where there is fuel enough for both.
-/

namespace TextAdventure

theorem spliceValue_append (node : Node) (value : Value) (vs ws : List Value) :
    spliceValue node value (vs ++ ws) = spliceValue node value vs ++ ws := by
  rw [spliceValue.eq_def, spliceValue.eq_def]
  split <;> simp

theorem Run.bind_pure {α : Type} (act : Run α) : act >>= pure = act := by
  funext m
  rcases hact : act m with ⟨a | s | f | _, m'⟩
  · rw [Run.bind_of_done hact]
    rfl
  · rw [Run.bind_of_signal hact]
  · rw [Run.bind_of_failed hact]
  · rw [Run.bind_of_exhausted hact]

/-- Nodes in a row are evaluated up to a point, and then if there is still no signal or failure the
others. -/
theorem evalAll_append (ev : Node → Run Value) (xs ys : List Node) :
    evalAll ev (xs ++ ys) = (do
      let vs ← evalAll ev xs
      let ws ← evalAll ev ys
      return vs ++ ws) := by
  induction xs with
  | nil => exact (Run.bind_pure (evalAll ev ys)).symm
  | cons x xs ih =>
    -- both run `x`, `xs` and `ys` in this order, and differ in when the values are put together
    rw [List.cons_append, evalAll, evalAll, ih, Run.bind_assoc]
    refine congrArg (ev x >>= ·) (funext fun value => ?_)
    rw [Run.bind_assoc, Run.bind_assoc]
    refine congrArg (evalAll ev xs >>= ·) (funext fun vs => ?_)
    rw [Run.bind_assoc]
    refine congrArg (evalAll ev ys >>= ·) (funext fun ws => ?_)
    exact congrArg Run.pure (spliceValue_append x value vs ws)

/-- Nodes in three parts, each evaluated in a way of its own. -/
def evalParts (ev ev' ev'' : Node → Run Value) (before xs after : List Node) :
    Run (List Value) := do
  let us ← evalAll ev before
  let vs ← evalAll ev' xs
  let ws ← evalAll ev'' after
  return us ++ (vs ++ ws)

theorem evalAll_eq_evalParts (ev : Node → Run Value) (before xs after : List Node) :
    evalAll ev (before ++ xs ++ after) = evalParts ev ev ev before xs after := by
  rw [List.append_assoc, evalAll_append, evalAll_append, evalParts]
  refine congrArg (evalAll ev before >>= ·) (funext fun us => ?_)
  rw [Run.bind_assoc]
  refine congrArg (evalAll ev xs >>= ·) (funext fun vs => ?_)
  rw [Run.bind_assoc]
  rfl

/-- A splice that yields the list of some values puts these between the others. -/
theorem evalAll_splice {ev ev' : Node → Run Value} {body : Node} {span : Span} {xs : List Node}
    (h : ev (.marked .splice body span) = do return .list (← evalAll ev' xs))
    (before after : List Node) :
    evalAll ev (before ++ [.marked .splice body span] ++ after) =
      evalParts ev ev' ev before xs after := by
  rw [List.append_assoc, evalAll_append, evalParts]
  refine congrArg (evalAll ev before >>= ·) (funext fun us => ?_)
  rw [List.singleton_append, evalAll, h, Run.bind_assoc, Run.bind_assoc]
  refine congrArg (evalAll ev' xs >>= ·) (funext fun vs => ?_)
  -- the list of the values is flattened at once
  show (evalAll ev after >>= fun ws => pure (vs ++ ws)) >>= _ = _
  rw [Run.bind_assoc]
  rfl

/-! ### Fuel -/

theorem eval_splice_list (lib : Library) (fuel : Nat) (xs : List Node) (span span' : Span) :
    eval lib (fuel + 2) (.marked .splice (.list xs span) span') = do
      return .list (← evalAll (eval lib fuel) xs) :=
  rfl

theorem evalAll_lasts (lib : Library) {fuel fuel' : Nat} (hfuel : fuel ≤ fuel')
    (nodes : List Node) : Run.Lasts (fun _ => True) (evalAll (eval lib fuel) nodes)
      (evalAll (eval lib fuel') nodes) := by
  intro m
  have hknown : fuelJudgement.KnownAll () nodes := fun _ _ => trivial
  have hlasts :=
    (fuel_logic lib).evalAll (s := ()) (fun _ node _ => eval_lasts lib hfuel node) hknown
  exact (hlasts m).imp_right fun h => ⟨h.1, fun _ _ => trivial⟩

theorem evalParts_lasts (lib : Library) {f f' f'' g g' g'' : Nat} (h : f ≤ g) (h' : f' ≤ g')
    (h'' : f'' ≤ g'') (before xs after : List Node) :
    Run.Lasts (fun _ => True)
      (evalParts (eval lib f) (eval lib f') (eval lib f'') before xs after)
      (evalParts (eval lib g) (eval lib g') (eval lib g'') before xs after) := by
  refine .bind (evalAll_lasts lib h before) fun us _ => ?_
  refine .bind (evalAll_lasts lib h' xs) fun vs _ => ?_
  refine .bind (evalAll_lasts lib h'' after) fun ws _ => ?_
  exact .refl fun _ _ _ => trivial

/-- With fuel enough, evaluating some nodes ends in one way: with their values, a signal, a failure
or a lack of memory, and a certain machine. -/
def ComesTo (lib : Library) (nodes : List Node) (m : Machine) (outcome : Outcome (List Value))
    (m' : Machine) : Prop :=
  outcome ≠ .exhausted .fuel ∧
    ∃ enough, ∀ fuel, enough ≤ fuel → evalAll (eval lib fuel) nodes m = (outcome, m')

/-- Nodes end as others do if with some more fuel or less they last as these do. -/
theorem ComesTo.of_lasts {lib : Library} {nodes nodes' : List Node} (a b : Nat)
    (hlasts : ∀ k, Run.Lasts (fun _ => True) (evalAll (eval lib (k + a)) nodes)
      (evalAll (eval lib (k + b)) nodes'))
    {m m' : Machine} {outcome : Outcome (List Value)} (h : ComesTo lib nodes m outcome m') :
    ComesTo lib nodes' m outcome m' := by
  obtain ⟨hends, enough, hruns⟩ := h
  refine ⟨hends, enough + b, fun fuel hfuel => ?_⟩
  obtain ⟨k, rfl⟩ : ∃ k, fuel = k + b := ⟨fuel - b, by omega⟩
  have hrun := hlasts k m
  rw [hruns (k + a) (by omega)] at hrun
  exact (hrun.resolve_left hends).1

/-- Splicing a list literal is the same as writing its items in place: between any other nodes, and
from any machine, both end with the same values, the same signal or the same failure, and leave the
same machine behind, or neither ends.  And whatever evaluates them, nodes in a row are evaluated up
to a point and then, if they have values, the others, whose values are appended. -/
theorem evalAll_splice_in_place (lib : Library) (before xs after : List Node)
    (span span' : Span) (m : Machine) :
    (∀ outcome m',
      ComesTo lib (before ++ [.marked .splice (.list xs span) span'] ++ after) m outcome m' ↔
        ComesTo lib (before ++ xs ++ after) m outcome m') ∧
    ∀ ev ys, evalAll ev (xs ++ ys) = (do
      let vs ← evalAll ev xs
      let ws ← evalAll ev ys
      return vs ++ ws) := by
  have hsplice (k : Nat) :
      evalAll (eval lib (k + 2)) (before ++ [.marked .splice (.list xs span) span'] ++ after) =
        evalParts (eval lib (k + 2)) (eval lib k) (eval lib (k + 2)) before xs after :=
    evalAll_splice (eval_splice_list lib k xs span span') before after
  refine ⟨fun outcome m' => ⟨?_, ?_⟩, fun ev ys => evalAll_append ev xs ys⟩
  -- the items alone have the fuel that the literal and the splice around it would take
  · refine ComesTo.of_lasts 2 2 fun k => ?_
    rw [hsplice, evalAll_eq_evalParts]
    exact evalParts_lasts lib (by omega) (by omega) (by omega) before xs after
  · refine ComesTo.of_lasts 0 2 fun k => ?_
    rw [hsplice, evalAll_eq_evalParts]
    exact evalParts_lasts lib (by omega) (by omega) (by omega) before xs after

-- a spliced list in a spliced list, between two other arguments
example :
    let number (n : Int64) : Node := .literal (.int n) default
    let spliced (items : List Node) : Node := .marked .splice (.list items default) default
    evalAll (eval .standard 5) [number 1, spliced [number 2, spliced [number 3]], number 4]
      (.initial .ones) = (.done [.int 1, .int 2, .int 3, .int 4], .initial .ones) :=
  rfl

end TextAdventure
