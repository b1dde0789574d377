import TextAdventure.Proofs.Program.Transition

/-!
What is never looked at.

Several operations go through their arguments only until one of them decides.  Whatever stands
behind it, be it well formed or not, changes neither the outcome nor the machine.

* `InTurn` — nodes pass a test one after another;
* `Searches` — a function that goes through nodes until one does not pass;
* `Searches.unread` — what comes after that one does not matter to it;
* `eval_short_circuit` — so it is with `AND`, `OR`, `COND`, `EQUAL?`, `N==?`, `VERB?`, `PRSO?` and
  `PRSI?`.

Design notes.  A test may change the machine, and whether it is passed may depend on the machine
it leaves behind, as with the slots of the current command.  A test that ends in a signal or a
failure is not passed, so it ends the search like any other answer.
-/

namespace TextAdventure

/-! ### Searches -/

section

variable {σ α β : Type}

/-- From one machine to another, nodes pass a test one after another. -/
inductive InTurn (test : Node → Run α) (pass : α → Machine → Prop) :
    List Node → Machine → Machine → Prop
  | nil (m : Machine) : InTurn test pass [] m m
  | cons {node : Node} {nodes : List Node} {a : α} {m m₁ m₂ : Machine}
      (htest : test node m = (.done a, m₁)) (hpass : pass a m₁)
      (hrest : InTurn test pass nodes m₁ m₂) : InTurn test pass (node :: nodes) m m₂

variable (pass : α → Machine → Prop) [∀ a m, Decidable (pass a m)]

/-- Goes on where something passes, and gives an answer where it does not. -/
def sift (go answer : α → Run β) (a : α) : Run β := fun m => if pass a m then go a m else answer a m

/-- A search tests nodes one after another up to the first that does not pass, which gives the
answer. -/
def Searches (test : Node → Run α) (search : σ → List Node → Run β) : Prop :=
  ∃ (next : σ → α → σ) (answer : Node → α → Run β), ∀ s node nodes,
    search s (node :: nodes) =
      test node >>= sift pass (fun a => search (next s a) nodes) (answer node)

variable {pass} {test : Node → Run α} {search : σ → List Node → Run β}

theorem sift_of_pass {go answer : α → Run β} {a : α} {m : Machine} (h : pass a m) :
    sift pass go answer a m = go a m :=
  if_pos h

theorem sift_of_not_pass {go answer : α → Run β} {a : α} {m : Machine} (h : ¬ pass a m) :
    sift pass go answer a m = answer a m :=
  if_neg h

/-- What passes is what does not end the search. -/
theorem sift_eq_ite (ends : α → Machine → Bool) (go answer : α → Run β) (a : α) (m : Machine) :
    sift (fun a m => ends a m = false) go answer a m = (if ends a m then answer a else go a) m := by
  by_cases h : ends a m = false
  · rw [sift_of_pass h, h]
    rfl
  · rw [sift_of_not_pass h, if_pos (Bool.not_eq_false _ ▸ h)]

/-- A search comes past the nodes that pass. -/
theorem Searches.skip (h : Searches pass test search) {before : List Node} {m m₁ : Machine}
    (hbefore : InTurn test pass before m m₁) (s : σ) :
    ∃ s₁, ∀ rest, search s (before ++ rest) m = search s₁ rest m₁ := by
  obtain ⟨next, answer, hstep⟩ := h
  induction hbefore generalizing s with
  | nil m => exact ⟨s, fun _ => rfl⟩
  | @cons node nodes a m m₁ m₂ htest hpass _ ih =>
    obtain ⟨s₁, hs₁⟩ := ih (next s a)
    refine ⟨s₁, fun rest => ?_⟩
    rw [List.cons_append, hstep, Run.bind_of_done htest, sift_of_pass hpass]
    exact hs₁ rest

/-- A search does not look behind a node that does not pass. -/
theorem Searches.stop (h : Searches pass test search) {node : Node} {m : Machine}
    (hnode : ∀ a m₁, test node m = (.done a, m₁) → ¬ pass a m₁) (s : σ) (rest rest' : List Node) :
    search s (node :: rest) m = search s (node :: rest') m := by
  obtain ⟨next, answer, hstep⟩ := h
  rw [hstep, hstep]
  rcases htest : test node m with ⟨a | signal | f | _, m₁⟩
  · have hfail := hnode a m₁ htest
    rw [Run.bind_of_done htest, Run.bind_of_done htest, sift_of_not_pass hfail,
      sift_of_not_pass hfail]
  · rw [Run.bind_of_signal htest, Run.bind_of_signal htest]
  · rw [Run.bind_of_failed htest, Run.bind_of_failed htest]
  · rw [Run.bind_of_exhausted htest, Run.bind_of_exhausted htest]

/-- What comes after the first node that does not pass does not matter to a search. -/
theorem Searches.unread (h : Searches pass test search) {before : List Node} {node : Node}
    {m m₁ : Machine} (hbefore : InTurn test pass before m m₁)
    (hnode : ∀ a m₂, test node m₁ = (.done a, m₂) → ¬ pass a m₂) (s : σ) (rest rest' : List Node) :
    search s (before ++ [node] ++ rest) m = search s (before ++ [node] ++ rest') m := by
  obtain ⟨s₁, hs₁⟩ := h.skip hbefore s
  rw [List.append_assoc, List.append_assoc, hs₁, hs₁]
  exact h.stop hnode s₁ rest rest'

end

/-! ### The searches of the language -/

section

/-- The value of a clause's guard. -/
def guardValue (ev : Node → Run Value) : Node → Run Value
  | .list (guard :: _) _ => ev guard
  | clause => Run.fail (.typeMismatch "COND" "clause list" clause.kindName)

/-- The value of a clause whose guard has a given truthy value. -/
def clauseValue (ev : Node → Run Value) : Node → Value → Run Value
  | .list (_ :: first :: rest) _, _ => evalBody ev (first :: rest)
  | _, value => pure value

/-- Two clauses with one guard. -/
inductive SameGuard : Node → Node → Prop
  | clause (guard : Node) (body body' : List Node) (s s' : Span) :
      SameGuard (.list (guard :: body) s) (.list (guard :: body') s')

variable (ev : Node → Run Value)

theorem firstClause_searches :
    Searches (fun value _ => value.isTruthy = false) (guardValue ev)
      fun (_ : Unit) => firstClause ev := by
  refine ⟨fun _ _ => (), clauseValue ev, fun _ clause clauses => ?_⟩
  match clause with
  | .list (guard :: body) s =>
    refine congrArg (ev guard >>= ·) (funext fun value => funext fun m => ?_)
    rw [sift_eq_ite]
    cases body with
    | nil => rfl
    | cons first rest => rfl
  | .list [] s => rfl
  | .form _ _ _ => rfl
  | .empty _ => rfl
  | .atom _ _ => rfl
  | .reference _ _ _ => rfl
  | .literal _ _ => rfl
  | .marked _ _ _ => rfl

theorem conjunction_searches :
    Searches (fun value _ => value.isTruthy = true) ev (conjunction ev) := by
  refine ⟨fun _ value => value, fun _ value => pure value, fun _ node nodes => ?_⟩
  refine congrArg (ev node >>= ·) (funext fun value => funext fun m => ?_)
  by_cases h : value.isTruthy = true
  · rw [sift_of_pass h, if_pos h]
  · rw [sift_of_not_pass h, if_neg h]

theorem disjunction_searches :
    Searches (fun value _ => value.isTruthy = false) ev (disjunction ev) := by
  refine ⟨fun _ value => value, fun _ value => pure value, fun _ node nodes => ?_⟩
  refine congrArg (ev node >>= ·) (funext fun value => funext fun m => ?_)
  rw [sift_eq_ite]

theorem anyEqual_searches (first : Value) :
    Searches (fun value _ => first.equals value = false) ev fun (_ : Unit) => anyEqual ev first := by
  refine ⟨fun _ _ => (), fun _ _ => pure true, fun _ node nodes => ?_⟩
  refine congrArg (ev node >>= ·) (funext fun value => funext fun m => ?_)
  rw [sift_eq_ite]

theorem verbMatches_searches :
    Searches (fun name m => m.world.slots.action.same (.ofName name) = false)
      (literalName ev "VERB?") fun (_ : Unit) => verbMatches ev := by
  refine ⟨fun _ _ => (), fun _ _ => pure true, fun _ node nodes => ?_⟩
  refine congrArg (literalName ev "VERB?" node >>= ·) (funext fun name => funext fun m => ?_)
  rw [sift_eq_ite]
  rfl

theorem slotMatches_searches (slot : Slot) :
    Searches (fun value m => (m.world.slots.get slot).same value = false) ev
      fun (_ : Unit) => slotMatches ev slot := by
  refine ⟨fun _ _ => (), fun _ _ => pure true, fun _ node nodes => ?_⟩
  refine congrArg (ev node >>= ·) (funext fun value => funext fun m => ?_)
  rw [sift_eq_ite]
  rfl

end

/-! ### What an operation does not read -/

theorem eval_operation {lib : Library} {operator : String} {op : Operation}
    (hlookup : lib.operations.lookup? operator = some op) (fuel : Nat) {args : List Node}
    (hlength : op.minimum ≤ args.length) (span : Span) :
    eval lib (fuel + 1) (.form operator args span) = op.perform lib fuel (eval lib fuel) args := by
  rw [eval, evalStep, dispatch, hlookup]
  exact if_neg (Nat.not_lt.mpr hlength)

/-- Whatever follows some arguments of a form does not matter. -/
def RestUnread (lib : Library) (fuel : Nat) (operator : String) (args : List Node) (m : Machine) :
    Prop :=
  ∀ rest rest' span, eval lib (fuel + 1) (.form operator (args ++ rest) span) m =
    eval lib (fuel + 1) (.form operator (args ++ rest') span) m

theorem RestUnread.of_perform {lib : Library} {operator : String} {op : Operation}
    (hlookup : lib.operations.lookup? operator = some op) {fuel : Nat} {args : List Node}
    (hlength : op.minimum ≤ args.length) {m : Machine}
    (h : ∀ rest rest', op.perform lib fuel (eval lib fuel) (args ++ rest) m =
      op.perform lib fuel (eval lib fuel) (args ++ rest') m) :
    RestUnread lib fuel operator args m := by
  intro rest rest' span
  have hmore (rest : List Node) : op.minimum ≤ (args ++ rest).length := by
    rw [List.length_append]
    omega
  rw [eval_operation hlookup fuel (hmore rest), eval_operation hlookup fuel (hmore rest')]
  exact h rest rest'

section

variable {lib : Library} {fuel : Nat} {operator : String} {before : List Node} {d : Node}
  {m m₁ : Machine}

theorem restUnread_all (hlookup : lib.operations.lookup? operator = some (.control .all))
    (hbefore : InTurn (eval lib fuel) (fun value _ => value.isTruthy = true) before m m₁)
    (hd : ∀ value m₂, eval lib fuel d m₁ = (.done value, m₂) → value.isTruthy = false) :
    RestUnread lib fuel operator (before ++ [d]) m := by
  have hstop : ∀ value m₂, eval lib fuel d m₁ = (.done value, m₂) → ¬ value.isTruthy = true :=
    fun value m₂ h => by simp [hd value m₂ h]
  refine .of_perform hlookup (Nat.zero_le _) fun rest rest' => ?_
  exact (conjunction_searches _).unread hbefore hstop _ rest rest'

theorem restUnread_any (hlookup : lib.operations.lookup? operator = some (.control .any))
    (hbefore : InTurn (eval lib fuel) (fun value _ => value.isTruthy = false) before m m₁)
    (hd : ∀ value m₂, eval lib fuel d m₁ = (.done value, m₂) → value.isTruthy = true) :
    RestUnread lib fuel operator (before ++ [d]) m := by
  have hstop : ∀ value m₂, eval lib fuel d m₁ = (.done value, m₂) → ¬ value.isTruthy = false :=
    fun value m₂ h => by simp [hd value m₂ h]
  refine .of_perform hlookup (Nat.zero_le _) fun rest rest' => ?_
  exact (disjunction_searches _).unread hbefore hstop _ rest rest'

/-- Clauses with the same guards are passed in the same way. -/
theorem InTurn.of_sameGuard {ev : Node → Run Value} {pass : Value → Machine → Prop}
    {clauses clauses' : List Node} (hsame : List.Forall₂ SameGuard clauses clauses')
    (h : InTurn (guardValue ev) pass clauses m m₁) : InTurn (guardValue ev) pass clauses' m m₁ := by
  induction hsame generalizing m with
  | nil => exact h
  | cons hfirst _ ih =>
    obtain ⟨guard, body, body', s, s'⟩ := hfirst
    obtain _ | ⟨htest, hpass, hrest⟩ := h
    exact .cons htest hpass (ih hrest)

theorem eval_cond_congr {clause : Node} {before' : List Node}
    (hlookup : lib.operations.lookup? operator = some (.control .cond))
    (hbefore : InTurn (guardValue (eval lib fuel)) (fun value _ => value.isTruthy = false)
      before m m₁)
    (hsame : List.Forall₂ SameGuard before before')
    (hclause : ∀ value m₂, guardValue (eval lib fuel) clause m₁ = (.done value, m₂) →
      value.isTruthy = true) (rest rest' : List Node) (span : Span) :
    eval lib (fuel + 1) (.form operator (before ++ clause :: rest) span) m =
      eval lib (fuel + 1) (.form operator (before' ++ clause :: rest') span) m := by
  have hstop : ∀ value m₂, guardValue (eval lib fuel) clause m₁ = (.done value, m₂) →
      ¬ value.isTruthy = false := fun value m₂ h => by simp [hclause value m₂ h]
  have hsearch := firstClause_searches (eval lib fuel)
  obtain ⟨_, hskip⟩ := hsearch.skip hbefore ()
  obtain ⟨_, hskip'⟩ := hsearch.skip (hbefore.of_sameGuard hsame) ()
  rw [eval_operation hlookup fuel (Nat.zero_le _), eval_operation hlookup fuel (Nat.zero_le _)]
  calc firstClause (eval lib fuel) (before ++ clause :: rest) m
      = firstClause (eval lib fuel) (clause :: rest) m₁ := hskip _
    _ = firstClause (eval lib fuel) (clause :: rest') m₁ := hsearch.stop hstop () rest rest'
    _ = firstClause (eval lib fuel) (before' ++ clause :: rest') m := (hskip' _).symm

theorem restUnread_compare {op : CompareOp} (hop : op = .equal ∨ op = .differ)
    (hlookup : lib.operations.lookup? operator = some (.compare op)) {first : Node} {value : Value}
    {m₂ : Machine} (hfirst : eval lib fuel first m = (.done value, m₁))
    (hbefore : InTurn (eval lib fuel) (fun other _ => value.equals other = false) before m₁ m₂)
    (hd : ∀ other m₃, eval lib fuel d m₂ = (.done other, m₃) → value.equals other = true) :
    RestUnread lib fuel operator (first :: before ++ [d]) m := by
  have hstop : ∀ other m₃, eval lib fuel d m₂ = (.done other, m₃) → ¬ value.equals other = false :=
    fun other m₃ h => by simp [hd other m₃ h]
  have hlength : 2 ≤ (first :: before ++ [d]).length := by simp
  have hsearch := (anyEqual_searches (eval lib fuel) value).unread hbefore hstop ()
  obtain rfl | rfl := hop
  all_goals
    refine .of_perform hlookup hlength fun rest rest' => ?_
    refine (Run.bind_of_done hfirst).trans (.trans ?_ (Run.bind_of_done hfirst).symm)
    exact Run.bind_congr (hsearch rest rest') _

theorem restUnread_isVerb (hlookup : lib.operations.lookup? operator = some (.object .isVerb))
    (hbefore : InTurn (literalName (eval lib fuel) "VERB?")
      (fun name m => m.world.slots.action.same (.ofName name) = false) before m m₁)
    (hd : ∀ name m₂, literalName (eval lib fuel) "VERB?" d m₁ = (.done name, m₂) →
      m₂.world.slots.action.same (.ofName name) = true) :
    RestUnread lib fuel operator (before ++ [d]) m := by
  have hstop : ∀ name m₂, literalName (eval lib fuel) "VERB?" d m₁ = (.done name, m₂) →
      ¬ m₂.world.slots.action.same (.ofName name) = false := fun name m₂ h => by simp [hd name m₂ h]
  have hlength : 1 ≤ (before ++ [d]).length := by simp
  refine .of_perform hlookup hlength fun rest rest' => Run.bind_congr ?_ _
  exact (verbMatches_searches _).unread hbefore hstop () rest rest'

/-- The slot that an operation compares its arguments with. -/
def ObjectOp.slot? : ObjectOp → Option Slot
  | .isDirect => some .direct
  | .isIndirect => some .indirect
  | _ => none

theorem restUnread_slot {op : ObjectOp} {slot : Slot} (hslot : op.slot? = some slot)
    (hlookup : lib.operations.lookup? operator = some (.object op))
    (hbefore : InTurn (eval lib fuel) (fun value m => (m.world.slots.get slot).same value = false)
      before m m₁)
    (hd : ∀ value m₂, eval lib fuel d m₁ = (.done value, m₂) →
      (m₂.world.slots.get slot).same value = true) :
    RestUnread lib fuel operator (before ++ [d]) m := by
  have hstop : ∀ value m₂, eval lib fuel d m₁ = (.done value, m₂) →
      ¬ (m₂.world.slots.get slot).same value = false := fun value m₂ h => by simp [hd value m₂ h]
  have hlength : 1 ≤ (before ++ [d]).length := by simp
  have hsearch := (slotMatches_searches (eval lib fuel) slot).unread hbefore hstop ()
  cases op with
  | isDirect =>
    obtain rfl := Option.some.inj hslot
    exact .of_perform hlookup hlength fun rest rest' => Run.bind_congr (hsearch rest rest') _
  | isIndirect =>
    obtain rfl := Option.some.inj hslot
    exact .of_perform hlookup hlength fun rest rest' => Run.bind_congr (hsearch rest rest') _
  | _ => cases hslot

end

/-- Unevaluated branches do not matter.  Where the arguments of `AND` before `d` come to truthy
values in turn and `d` comes to a falsy value, a signal or a failure, nothing after `d` is read;
with `OR` it is the other way round.  Where the guards of the first clauses of `COND` come to falsy
values in turn and that of the next does not, neither the bodies of the first nor anything after the
next is read.  And `EQUAL?`, `N==?`, `VERB?`, `PRSO?` and `PRSI?` read nothing after the first
argument that matches. -/
theorem eval_short_circuit (lib : Library) (fuel : Nat) (operator : String) (m : Machine) :
    (lib.operations.lookup? operator = some (.control .all) → ∀ before d m₁,
      InTurn (eval lib fuel) (fun value _ => value.isTruthy = true) before m m₁ →
      (∀ value m₂, eval lib fuel d m₁ = (.done value, m₂) → value.isTruthy = false) →
      RestUnread lib fuel operator (before ++ [d]) m) ∧
    (lib.operations.lookup? operator = some (.control .any) → ∀ before d m₁,
      InTurn (eval lib fuel) (fun value _ => value.isTruthy = false) before m m₁ →
      (∀ value m₂, eval lib fuel d m₁ = (.done value, m₂) → value.isTruthy = true) →
      RestUnread lib fuel operator (before ++ [d]) m) ∧
    (lib.operations.lookup? operator = some (.control .cond) → ∀ before before' clause m₁,
      InTurn (guardValue (eval lib fuel)) (fun value _ => value.isTruthy = false) before m m₁ →
      List.Forall₂ SameGuard before before' →
      (∀ value m₂, guardValue (eval lib fuel) clause m₁ = (.done value, m₂) →
        value.isTruthy = true) →
      ∀ rest rest' span, eval lib (fuel + 1) (.form operator (before ++ clause :: rest) span) m =
        eval lib (fuel + 1) (.form operator (before' ++ clause :: rest') span) m) ∧
    (∀ op, op = .equal ∨ op = .differ → lib.operations.lookup? operator = some (.compare op) →
      ∀ first value m₁ before d m₂, eval lib fuel first m = (.done value, m₁) →
      InTurn (eval lib fuel) (fun other _ => value.equals other = false) before m₁ m₂ →
      (∀ other m₃, eval lib fuel d m₂ = (.done other, m₃) → value.equals other = true) →
      RestUnread lib fuel operator (first :: before ++ [d]) m) ∧
    (lib.operations.lookup? operator = some (.object .isVerb) → ∀ before d m₁,
      InTurn (literalName (eval lib fuel) "VERB?")
        (fun name m => m.world.slots.action.same (.ofName name) = false) before m m₁ →
      (∀ name m₂, literalName (eval lib fuel) "VERB?" d m₁ = (.done name, m₂) →
        m₂.world.slots.action.same (.ofName name) = true) →
      RestUnread lib fuel operator (before ++ [d]) m) ∧
    (∀ op slot, op.slot? = some slot → lib.operations.lookup? operator = some (.object op) →
      ∀ before d m₁,
      InTurn (eval lib fuel) (fun value m => (m.world.slots.get slot).same value = false)
        before m m₁ →
      (∀ value m₂, eval lib fuel d m₁ = (.done value, m₂) →
        (m₂.world.slots.get slot).same value = true) →
      RestUnread lib fuel operator (before ++ [d]) m) := by
  refine ⟨?_, ?_, ?_, ?_, ?_, ?_⟩
  · intro hlookup before d m₁ hbefore hd
    exact restUnread_all hlookup hbefore hd
  · intro hlookup before d m₁ hbefore hd
    exact restUnread_any hlookup hbefore hd
  · intro hlookup before before' clause m₁ hbefore hsame hclause
    exact eval_cond_congr hlookup hbefore hsame hclause
  · intro op hop hlookup first value m₁ before d m₂ hfirst hbefore hd
    exact restUnread_compare hop hlookup hfirst hbefore hd
  · intro hlookup before d m₁ hbefore hd
    exact restUnread_isVerb hlookup hbefore hd
  · intro op slot hslot hlookup before d m₁ hbefore hd
    exact restUnread_slot hslot hlookup hbefore hd

/-- The second argument of an `AND` is false, so the third may be anything; and so with the body of
a clause whose guard is false. -/
theorem eval_short_circuit_stop :
    (∀ rest rest' span,
      eval .standard 3 (.form "AND" ([.literal (.int 1) default, .empty default] ++ rest) span)
        (.initial .ones) =
      eval .standard 3 (.form "AND" ([.literal (.int 1) default, .empty default] ++ rest') span)
        (.initial .ones)) ∧
    ∀ body body' later later' span,
      eval .standard 3 (.form "COND" ([.list (.empty default :: body) default] ++
        .list [.literal (.int 1) default, .literal (.int 2) default] default :: later) span)
        (.initial .ones) =
      eval .standard 3 (.form "COND" ([.list (.empty default :: body') default] ++
        .list [.literal (.int 1) default, .literal (.int 2) default] default :: later') span)
        (.initial .ones) := by
  constructor
  · obtain ⟨hall, -⟩ := eval_short_circuit .standard 2 "AND" (.initial .ones)
    refine hall (by decide) [.literal (.int 1) default] (.empty default) (.initial .ones)
      (.cons rfl rfl (.nil _)) ?_
    rintro value m₂ ⟨⟩
    rfl
  · intro body body' later later' span
    obtain ⟨-, -, hcond, -⟩ := eval_short_circuit .standard 2 "COND" (.initial .ones)
    refine hcond (by decide) _ _ _ (.initial .ones) (.cons rfl rfl (.nil _))
      (.cons (.clause _ body body' default default) .nil) ?_ later later' span
    rintro value m₂ ⟨⟩
    rfl

end TextAdventure
