import TextAdventure.Proofs.Program.Transition

/-!
Arguments read by position.

An operation gets the arguments of a form as they stand.  Most operations read them by position,
some only after asking how many there are, and `dispatch` looks at the number once, beforehand.

* `Access`, `Access.Within` — what is read of a list, and whether it is there;
* `Noting` — an action that notes what it reads of lists by position;
* `Operation.byPosition`, `dispatchByPosition` — the operations, each argument read where it is
  needed;
* `Noting.Realizes` — a noting action ends as a plain one does, and reads only what is there;
* `Operation.byPosition_realizes` — so does each operation that has its least number of arguments;
* `dispatch_reads_within` — and so nothing that a form does reads an argument that is missing.

Design notes.  How nodes are evaluated is left open.  So what is noted is what one form's operation
reads itself, be it of the arguments, of what is left of them behind a list of flags, or of their
values, and what is shown of it holds of every form that a program comes to.  Behind the end of a
list there is nothing to go on with: such a read is noted and the action has no answer.
-/

namespace TextAdventure

/-! ### Reading a list by position -/

/-- What is read of a list of some length: the entry at a position, or all entries from one on. -/
inductive Access where
  | entry (position length : Nat)
  | rest (start length : Nat)
  deriving DecidableEq, Repr

/-- What is read is there. -/
def Access.Within : Access → Prop
  | .entry position length => position < length
  | .rest start length => start ≤ length

/-- An action on the machine that notes what it reads of lists by position. -/
def Noting (α : Type) : Type := Machine → List Access × Outcome α × Machine

namespace Noting

variable {α β : Type}

protected def pure (a : α) : Noting α := fun m => ([], .done a, m)

/-- One action after another; what is noted stays, however they end. -/
protected def bind (act : Noting α) (next : α → Noting β) : Noting β := fun m =>
  match act m with
  | (noted, .done a, m) => (noted ++ (next a m).1, (next a m).2)
  | (noted, .signal s, m) => (noted, .signal s, m)
  | (noted, .failed f, m) => (noted, .failed f, m)
  | (noted, .exhausted what, m) => (noted, .exhausted what, m)

instance : Monad Noting where
  pure := Noting.pure
  bind := Noting.bind

/-- A plain action reads nothing by position. -/
instance : MonadLift Run Noting where
  monadLift act := fun m => ([], act m)

end Noting

section

variable {α : Type}

/-- The entry at a position. -/
def readAt (xs : List α) (i : Nat) : Noting α := fun m =>
  ([.entry i xs.length], (xs[i]?.elim (.exhausted .fuel) .done, m))

/-- The entry at a position, if the list is long enough. -/
def readAt? (xs : List α) (i : Nat) : Noting (Option α) := do
  if i < xs.length then return some (← readAt xs i) else return none

/-- The entries from a position on. -/
def readFrom (xs : List α) (i : Nat) : Noting (List α) := fun m =>
  ([.rest i xs.length], (if i ≤ xs.length then .done (xs.drop i) else .exhausted .fuel, m))

/-- Works on the argument at a position. -/
def argument (args : List Node) (i : Nat) (work : Node → Run α) : Noting α := do
  work (← readAt args i)

end

/-! ### Operations that read by position -/

/-- The leading list of bindings, empty if there is none, and the nodes after it. -/
def leadingBindings (args : List Node) : Noting (List Node × List Node) := do
  match ← readAt? args 0 with
  | some (.list bindings _) => return (bindings, ← readFrom args 1)
  | _ => return ([], args)

/-- The control operations.  Those not named go through their arguments in order or look at
none. -/
def ControlOp.byPosition (op : ControlOp) (lib : Library) (fuel : Nat) (ev : Node → Run Value)
    (args : List Node) : Noting Value :=
  match op with
  | .negate => do
    let value ← argument args 0 ev
    return .bool (!value.isTruthy)
  | .loop => do
    let (bindings, body) ← leadingBindings args
    Run.withinBlock do
      bindEntries ev bindings
      Run.forever (evalEach ev body) fuel
  | .block => do
    let (bindings, body) ← leadingBindings args
    Run.withinBlock do
      bindEntries ev bindings
      evalBody ev body
  | .leave => do
    match ← readAt? args 0 with
    | some node => leaveWith (← ev node)
    | none => leaveWith (.bool true)
  | .apply => do
    let values ← evalAll ev args
    if values.isEmpty then Run.fail (.arity "APPLY" 1 0)
    else
      let callee ← readAt values 0
      let others ← readFrom values 1
      callValue lib ev callee others
  | op => op.perform lib fuel ev args

def VariableOp.byPosition (op : VariableOp) (lib : Library) (ev : Node → Run Value)
    (args : List Node) : Noting Value :=
  match op with
  | .assign => do
    let name ← argument args 0 (literalName ev "SET")
    let value ← argument args 1 ev
    Run.modifyFrame (·.assign name value)
    return value
  | .assignGlobal => do
    let name ← argument args 0 (literalName ev "SETG")
    let value ← argument args 1 ev
    Run.modifyWorld (·.setGlobal name value)
    return value
  | .value => do
    let name ← argument args 0 (literalName ev "VALUE")
    resolveName lib name
  | .localValue => do
    let name ← argument args 0 (literalName ev "LVAL")
    requireBound name (← Run.read (·.frame.get? name))
  | .globalValue => do
    let name ← argument args 0 (literalName ev "GVAL")
    requireBound name (← Run.readWorld (·.global? name))
  | .isAssigned => do
    let name ← argument args 0 (literalName ev "ASSIGNED?")
    return .bool (← Run.read (·.frame.isAssigned name))

/-- The operation on any number of numbers: the first is combined with the rest, and with the
identity if it is the only one. -/
def combineByPosition (op : FoldOp) (numbers : List Numeric) : Noting Numeric := do
  match ← readAt? numbers 0 with
  | none => return .int op.identity
  | some first =>
    if numbers.length = 1 then Run.ofExcept (op.apply (.int op.identity) first)
    else Run.ofExcept (op.accumulate first (← readFrom numbers 1))

def ArithmeticOp.byPosition (op : ArithmeticOp) (ev : Node → Run Value) (args : List Node) :
    Noting Value :=
  match op with
  | .fold f => do
    let values ← evalAll ev args
    let numbers ← Run.ofExcept (expectNumbers f.name values)
    let total ← combineByPosition f numbers
    return total.toValue
  | .remainder => do
    let a ← argument args 0 ev
    let b ← argument args 1 ev
    let a ← expectInt "MOD" a
    let b ← expectInt "MOD" b
    let n ← Run.ofExcept (intRemainder a b)
    return .int n
  | .extreme which => do
    let values ← evalAll ev args
    let numbers ← Run.ofExcept (expectNumbers which.name values)
    match ← readAt? numbers 0 with
    | none => Run.fail (.arity which.name 1 0)
    | some first => return (which.pick first (← readFrom numbers 1)).toValue
  | .absolute => do
    let value ← argument args 0 ev
    Run.ofExcept (absoluteValue value)
  | .random => do
    let limit ← expectInt "RANDOM" (← argument args 0 ev)
    if limit < 1 then Run.fail (.typeMismatch "RANDOM" "positive int" "int")
    else
      let n ← Run.random limit
      return .int n
  | .chance => do
    let chance ← expectInt "PROB" (← argument args 0 ev)
    let n ← Run.random 100
    return .bool (n ≤ chance)

def CompareOp.byPosition (op : CompareOp) (ev : Node → Run Value) (args : List Node) :
    Noting Value :=
  match op with
  | .equal => do
    let first ← argument args 0 ev
    let others ← readFrom args 1
    return .bool (← anyEqual ev first others)
  | .differ => do
    let first ← argument args 0 ev
    let others ← readFrom args 1
    return .bool (!(← anyEqual ev first others))
  | .order which => do
    let a ← argument args 0 ev
    let b ← argument args 1 ev
    let ordering ← Run.ofExcept (compareValues which.shortName a b)
    return .bool (which.holds ordering)
  | .isZero => do
    let value ← argument args 0 ev
    return .bool (value.equals (.int 0))
  | .isOne => do
    let value ← argument args 0 ev
    return .bool (value.equals (.int 1))

/-- The holder that a `HELD?` asks about: its second argument, or the actor. -/
def holderByPosition (lib : Library) (ev : Node → Run Value) (args : List Node) :
    Noting Value := do
  match ← readAt? args 1 with
  | some node => ev node
  | none => Run.readWorld (·.global lib.actorGlobal)

/-- The operations on objects.  Those not named go through their arguments in order. -/
def ObjectOp.byPosition (op : ObjectOp) (lib : Library) (ev : Node → Run Value)
    (args : List Node) : Noting Value :=
  match op with
  | .setFlag => do
    let o ← argument args 0 (objectArg ev "FSET")
    let flag ← argument args 1 (nameArg ev "FSET")
    Run.changeWorld (·.setFlag o flag)
    return .bool true
  | .clearFlag => do
    let o ← argument args 0 (objectArg ev "FCLEAR")
    let flag ← argument args 1 (nameArg ev "FCLEAR")
    Run.changeWorld (·.clearFlag o flag)
    return .bool true
  | .hasFlag => do
    let o ← argument args 0 (objectArg ev "FSET?")
    let flag ← argument args 1 (nameArg ev "FSET?")
    return .bool (← Run.readWorld (·.flag o flag))
  | .getProperty => do
    let o ← argument args 0 (objectArg ev "GETP")
    let property ← argument args 1 (nameArg ev "GETP")
    Run.readWorld (·.property o property)
  | .putProperty => do
    let o ← argument args 0 (objectArg ev "PUTP")
    let property ← argument args 1 (nameArg ev "PUTP")
    let value ← argument args 2 ev
    Run.changeWorld (·.putProperty o property value)
    return value
  | .move => do
    let o ← argument args 0 (objectArg ev "MOVE")
    let container ← argument args 1 (objectArg ev "MOVE")
    Run.changeWorld (·.move o container)
    return .bool true
  | .remove => do
    let o ← argument args 0 (objectArg ev "REMOVE")
    Run.changeWorld (·.remove o)
    return .bool true
  | .parent => do
    let o ← argument args 0 (objectArg ev "LOC")
    return .ofObject? (← Run.readWorld (·.parent? o))
  | .isIn => do
    let o ← argument args 0 (objectArg ev "IN?")
    let container ← argument args 1 (objectArg ev "IN?")
    return .bool (decide ((← Run.readWorld (·.parent? o)) = some container))
  | .firstChild => do
    let o ← argument args 0 (objectArg ev "FIRST?")
    return .ofObject? (← Run.readWorld (·.firstChild? o))
  | .nextSibling => do
    let o ← argument args 0 (objectArg ev "NEXT?")
    return .ofObject? (← Run.readWorld (·.nextSibling? o))
  | .isHeld => do
    let o ← argument args 0 (objectArg ev "HELD?")
    let holder ← holderByPosition lib ev args
    match holder.object? with
    | some h => return .bool (← Run.readWorld (·.isAncestor h o))
    | none => return .bool false
  | op => op.perform lib ev args

/-- Prints items from a position on.  A marker takes the item after it along. -/
def tellFrom (ev : Node → Run Value) (items : List Node) (i : Nat) : Noting Value :=
  if i < items.length then do
    let node ← readAt items i
    match TellMarker.ofNode? node with
    | some .newline =>
      Run.print "\n"
      tellFrom ev items (i + 1)
    | some .object =>
      if i + 1 < items.length then
        printObject "TELL" (← argument items (i + 1) ev)
        tellFrom ev items (i + 2)
      else Run.fail (.arity "TELL" 1 0)
    | some .number =>
      if i + 1 < items.length then
        printInt "TELL" (← argument items (i + 1) ev)
        tellFrom ev items (i + 2)
      else Run.fail (.arity "TELL" 1 0)
    | none =>
      let value ← ev node
      Run.print (← Run.readWorld (·.render value))
      tellFrom ev items (i + 1)
  else pure (.bool true)
termination_by items.length - i

/-- The printing operations.  Those not named look at no argument. -/
def OutputOp.byPosition (op : OutputOp) (ev : Node → Run Value) (args : List Node) :
    Noting Value :=
  match op with
  | .tell => tellFrom ev args 0
  | .print => do
    let value ← argument args 0 ev
    Run.print (← Run.readWorld (·.render value))
    return .bool true
  | .printText => do
    let value ← argument args 0 ev
    Run.print (← Run.readWorld (·.render value))
    return .bool true
  | .describe => do
    printObject "PRINTD" (← argument args 0 ev)
    return .bool true
  | .number => do
    printInt "PRINTN" (← argument args 0 ev)
    return .bool true
  | .character => do
    let c ← Run.ofExcept (expectChar (← argument args 0 ev))
    Run.print c.toString
    return .bool true
  | op => op.perform ev args

/-- Whether `LENGTH` is in a leading list of atoms, and the nodes after that list. -/
def leadingFlags (args : List Node) : Noting (Bool × List Node) := do
  match ← readAt? args 0 with
  | some (.list (flag :: flags) _) =>
    match (flag :: flags).mapM Node.atom? with
    | some names => return (names.any (sameLetters · "LENGTH"), ← readFrom args 1)
    | none => return (false, args)
  | _ => return (false, args)

def tableByPosition (ev : Node → Run Value) (counted : Bool) (args : List Node) :
    Noting Value := do
  let (flagged, items) ← leadingFlags args
  let values ← evalAll ev items
  if counted || flagged then makeTable (.int (Int64.ofNat values.length) :: values)
  else makeTable values

def fillByPosition (lib : Library) (ev : Node → Run Value) (args : List Node) : Noting Value := do
  let (_, items) ← leadingFlags args
  match ← readAt? items 0 with
  | none => return .bool false
  | some node =>
    let count ← expectInt "ITABLE" (← ev node)
    let fill ← fillValue ev (← readFrom items 1)
    makeFilled lib count.toInt.toNat fill

def readByPosition (ev : Node → Run Value) (args : List Node) : Noting Value := do
  let table ← argument args 0 ev
  let index ← argument args 1 ev
  let t ← expectTable "GET" table
  let i ← expectInt "GET" index
  Run.ofExcept (← Run.readWorld (·.tableGet t i.toInt))

def writeByPosition (ev : Node → Run Value) (operation : String) (convert : Value → Value)
    (args : List Node) : Noting Value := do
  let table ← argument args 0 ev
  let index ← argument args 1 ev
  let value := convert (← argument args 2 ev)
  let t ← expectTable operation table
  let i ← expectInt operation index
  Run.changeWorld (·.tablePut t i.toInt value)
  return value

def TableOp.byPosition (op : TableOp) (lib : Library) (ev : Node → Run Value)
    (args : List Node) : Noting Value :=
  match op with
  | .make => tableByPosition ev false args
  | .makeCounted => tableByPosition ev true args
  | .fill => fillByPosition lib ev args
  | .get => readByPosition ev args
  | .getByte => readByPosition ev args
  | .put => writeByPosition ev "PUT" id args
  | .putByte => writeByPosition ev "PUTB" byteOf args

def Operation.byPosition (op : Operation) (lib : Library) (fuel : Nat) (ev : Node → Run Value)
    (args : List Node) : Noting Value :=
  match op with
  | .control op => op.byPosition lib fuel ev args
  | .binding op => op.byPosition lib ev args
  | .arithmetic op => op.byPosition ev args
  | .compare op => op.byPosition ev args
  | .object op => op.byPosition lib ev args
  | .output op => op.byPosition ev args
  | .table op => op.byPosition lib ev args

/-- What a form does, with the arguments that its operation reads by position. -/
def dispatchByPosition (lib : Library) (fuel : Nat) (ev : Node → Run Value) (operator : String)
    (args : List Node) : Noting Value :=
  match lib.operations.lookup? operator with
  | some op =>
    if args.length < op.minimum then Run.fail (.arity op.name op.minimum args.length)
    else op.byPosition lib fuel ev args
  | none => dispatch lib fuel ev operator args

/-! ### Staying within bounds -/

/-- A noting action ends as a plain one does, and all that it reads by position is there. -/
def Noting.Realizes {α : Type} (noting : Noting α) (act : Run α) : Prop :=
  ∀ m, (noting m).2 = act m ∧ ∀ access ∈ (noting m).1, access.Within

namespace Noting.Realizes

variable {α β : Type}

theorem lift (act : Run α) : (liftM act : Noting α).Realizes act := fun _ => ⟨rfl, nofun⟩

theorem pure (a : α) : (Pure.pure a : Noting α).Realizes (Pure.pure a) :=
  fun _ => ⟨rfl, nofun⟩

theorem bind {noting : Noting α} {act : Run α} {next : α → Noting β} {next' : α → Run β}
    (hact : noting.Realizes act) (hnext : ∀ a, (next a).Realizes (next' a)) :
    (noting >>= next).Realizes (act >>= next') := by
  intro m
  obtain ⟨hends, hwithin⟩ := hact m
  show (Noting.bind noting next m).2 = _ ∧ ∀ access ∈ (Noting.bind noting next m).1, _
  rw [Noting.bind]
  generalize noting m = ended at hends hwithin
  rcases ended with ⟨noted, a | s | f | _, m'⟩
  · obtain ⟨hends', hwithin'⟩ := hnext a m'
    refine ⟨hends'.trans (Run.bind_of_done hends.symm).symm, fun access h => ?_⟩
    exact (List.mem_append.mp h).elim (hwithin access) (hwithin' access)
  · exact ⟨(Run.bind_of_signal hends.symm).symm, hwithin⟩
  · exact ⟨(Run.bind_of_failed hends.symm).symm, hwithin⟩
  · exact ⟨(Run.bind_of_exhausted hends.symm).symm, hwithin⟩

/-- What is known to be read can be gone on with. -/
theorem given {noting : Noting α} {next : α → Noting β} {act : Run β} {a : α}
    (hread : noting.Realizes (Pure.pure a)) (hnext : (next a).Realizes act) :
    (noting >>= next).Realizes act := by
  intro m
  obtain ⟨hends, hwithin⟩ := hread m
  obtain ⟨hends', hwithin'⟩ := hnext m
  have hknown : noting m = ((noting m).1, .done a, m) := Prod.ext rfl hends
  show (Noting.bind noting next m).2 = _ ∧ ∀ access ∈ (Noting.bind noting next m).1, _
  rw [Noting.bind, hknown]
  exact ⟨hends', fun access h => (List.mem_append.mp h).elim (hwithin access) (hwithin' access)⟩

section

variable {xs : List α} {i : Nat}

theorem readAt {x : α} (h : xs[i]? = some x) : (readAt xs i).Realizes (Pure.pure x) := by
  intro m
  rw [TextAdventure.readAt, h]
  exact ⟨rfl, List.forall_mem_singleton.mpr (List.getElem?_eq_some_iff.mp h).1⟩

theorem readFrom (h : i ≤ xs.length) : (readFrom xs i).Realizes (Pure.pure (xs.drop i)) := by
  intro m
  rw [TextAdventure.readFrom, if_pos h]
  exact ⟨rfl, List.forall_mem_singleton.mpr h⟩

theorem readTail (x : α) (xs : List α) :
    (TextAdventure.readFrom (x :: xs) 1).Realizes (Pure.pure xs) :=
  .readFrom (Nat.le_add_left 1 xs.length)

/-- An entry may always be asked for. -/
theorem readAt? (xs : List α) (i : Nat) : (readAt? xs i).Realizes (Pure.pure xs[i]?) := by
  rw [TextAdventure.readAt?]
  split
  next h =>
    rw [List.getElem?_eq_getElem h]
    exact .given (.readAt (List.getElem?_eq_getElem h)) (.pure _)
  next h =>
    rw [List.getElem?_eq_none (Nat.le_of_not_lt h)]
    exact .pure _

end

theorem argument {args : List Node} {i : Nat} {node : Node} (h : args[i]? = some node)
    (work : Node → Run α) : (argument args i work).Realizes (work node) :=
  .given (.readAt h) (.lift _)

end Noting.Realizes

/-! ### Every operation stays within bounds -/

theorem Run.ofExcept_bind {α β : Type} (e : Except Fault α) (f : α → Except Fault β) :
    Run.ofExcept (e >>= f) = Run.ofExcept e >>= fun a => Run.ofExcept (f a) := by
  cases e <;> rfl

section

variable {lib : Library} {fuel : Nat} {ev : Node → Run Value} {args : List Node}

theorem exists_cons_cons (h : 2 ≤ args.length) :
    ∃ left right rest, args = left :: right :: rest := by
  obtain _ | ⟨left, _ | ⟨right, rest⟩⟩ := args
  · exact absurd h (by decide)
  · exact absurd h (by simp)
  · exact ⟨left, right, rest, rfl⟩

theorem exists_cons_cons_cons (h : 3 ≤ args.length) :
    ∃ first second third rest, args = first :: second :: third :: rest := by
  obtain ⟨first, second, rest, rfl⟩ := exists_cons_cons (Nat.le_of_succ_le h)
  have hrest : 0 < rest.length := Nat.le_of_succ_le_succ (Nat.le_of_succ_le_succ h)
  obtain ⟨third, rest, rfl⟩ := List.exists_cons_of_length_pos hrest
  exact ⟨first, second, third, rest, rfl⟩

/-- A leading list of bindings is split off the body, as binding them does. -/
theorem leadingBindings_realizes (ev : Node → Run Value) (args : List Node) :
    ∃ bindings body, (leadingBindings args).Realizes (pure (bindings, body)) ∧
      ∀ run : List Node → Run Value, bindBlock ev args >>= run =
        bindEntries ev bindings >>= fun _ => run body := by
  obtain _ | ⟨first, rest⟩ := args
  · exact ⟨[], [], .given (.readAt? _ _) (.pure _), fun run => rfl⟩
  · cases first with
    | list bindings span =>
      refine ⟨bindings, rest, .given (.readAt? _ _) ?_, fun run => Run.bind_assoc _ _ _⟩
      exact .given (.readTail _ _) (.pure _)
    | _ => exact ⟨[], _, .given (.readAt? _ _) (.pure _), fun run => rfl⟩

theorem ControlOp.byPosition_realizes (op : ControlOp)
    (h : (Operation.control op).minimum ≤ args.length) :
    (op.byPosition lib fuel ev args).Realizes (op.perform lib fuel ev args) := by
  cases op with
  | negate =>
    obtain ⟨node, rest, rfl⟩ := List.exists_cons_of_length_pos h
    exact .bind (.argument rfl _) fun value => .pure _
  | loop | block =>
    obtain ⟨bindings, body, hread, hbound⟩ := leadingBindings_realizes ev args
    rw [perform, hbound]
    exact .given hread (.lift _)
  | leave =>
    refine .given (.readAt? _ _) ?_
    cases args with
    | nil => exact .lift _
    | cons node rest => exact .bind (.lift _) fun value => .lift _
  | apply =>
    refine .bind (.lift _) fun values => ?_
    cases values with
    | nil => exact .lift _
    | cons callee others => exact .given (.readAt rfl) (.given (.readTail _ _) (.lift _))
  | _ => exact .lift _

theorem VariableOp.byPosition_realizes (op : VariableOp)
    (h : (Operation.binding op).minimum ≤ args.length) :
    (op.byPosition lib ev args).Realizes (op.perform lib ev args) := by
  cases op with
  | assign | assignGlobal =>
    obtain ⟨target, node, rest, rfl⟩ := exists_cons_cons h
    refine .bind (.argument rfl _) fun name => .bind (.argument rfl _) fun value => ?_
    exact .bind (.lift _) fun _ => .pure _
  | value =>
    obtain ⟨target, rest, rfl⟩ := List.exists_cons_of_length_pos h
    exact .bind (.argument rfl _) fun name => .lift _
  | localValue | globalValue =>
    obtain ⟨target, rest, rfl⟩ := List.exists_cons_of_length_pos h
    exact .bind (.argument rfl _) fun name => .bind (.lift _) fun value => .lift _
  | isAssigned =>
    obtain ⟨target, rest, rfl⟩ := List.exists_cons_of_length_pos h
    exact .bind (.argument rfl _) fun name => .bind (.lift _) fun _ => .pure _

theorem combineByPosition_realizes (f : FoldOp) (numbers : List Numeric) :
    (combineByPosition f numbers).Realizes (Run.ofExcept (combineNumbers f numbers)) := by
  refine .given (.readAt? _ _) ?_
  obtain _ | ⟨first, _ | ⟨second, rest⟩⟩ := numbers
  · exact .pure _
  · exact .lift _
  · exact .given (.readTail _ _) (.lift _)

theorem ArithmeticOp.byPosition_realizes (op : ArithmeticOp)
    (h : (Operation.arithmetic op).minimum ≤ args.length) :
    (op.byPosition ev args).Realizes (op.perform ev args) := by
  cases op with
  | fold f =>
    refine .bind (.lift _) fun values => ?_
    rw [foldNumbers, Run.ofExcept_bind]
    refine .bind (.lift _) fun numbers => ?_
    rw [Run.ofExcept_bind]
    exact .bind (combineByPosition_realizes f numbers) fun total => .pure _
  | remainder =>
    obtain ⟨left, right, rest, rfl⟩ := exists_cons_cons h
    refine .bind (.argument rfl _) fun a => .bind (.argument rfl _) fun b => ?_
    refine .bind (.lift _) fun a => .bind (.lift _) fun b => .bind (.lift _) fun n => ?_
    exact .pure _
  | extreme which =>
    refine .bind (.lift _) fun values => ?_
    rw [extremeOf, Run.ofExcept_bind]
    refine .bind (.lift _) fun numbers => .given (.readAt? _ _) ?_
    cases numbers with
    | nil => exact .lift _
    | cons first rest => exact .given (.readTail _ _) (.pure _)
  | absolute =>
    obtain ⟨node, rest, rfl⟩ := List.exists_cons_of_length_pos h
    exact .bind (.argument rfl _) fun value => .lift _
  | random =>
    obtain ⟨node, rest, rfl⟩ := List.exists_cons_of_length_pos h
    refine .bind (.argument rfl _) fun value => .bind (.lift _) fun limit => ?_
    split
    · exact .lift _
    · exact .bind (.lift _) fun n => .pure _
  | chance =>
    obtain ⟨node, rest, rfl⟩ := List.exists_cons_of_length_pos h
    refine .bind (.argument rfl _) fun value => .bind (.lift _) fun chance => ?_
    exact .bind (.lift _) fun n => .pure _

theorem CompareOp.byPosition_realizes (op : CompareOp)
    (h : (Operation.compare op).minimum ≤ args.length) :
    (op.byPosition ev args).Realizes (op.perform ev args) := by
  cases op with
  | equal | differ =>
    obtain ⟨node, rest, rfl⟩ := List.exists_cons_of_length_pos (Nat.le_of_succ_le h)
    refine .bind (.argument rfl _) fun first => .given (.readTail _ _) ?_
    exact .bind (.lift _) fun found => .pure _
  | order which =>
    obtain ⟨left, right, rest, rfl⟩ := exists_cons_cons h
    refine .bind (.argument rfl _) fun a => .bind (.argument rfl _) fun b => ?_
    exact .bind (.lift _) fun ordering => .pure _
  | isZero | isOne =>
    obtain ⟨node, rest, rfl⟩ := List.exists_cons_of_length_pos h
    exact .bind (.argument rfl _) fun value => .pure _

theorem holderByPosition_realizes (target : Node) (rest : List Node) :
    (holderByPosition lib ev (target :: rest)).Realizes (holderArg lib ev rest) := by
  refine .given (.readAt? _ _) ?_
  cases rest with
  | nil => exact .lift _
  | cons node rest => exact .lift _

theorem ObjectOp.byPosition_realizes (op : ObjectOp)
    (h : (Operation.object op).minimum ≤ args.length) :
    (op.byPosition lib ev args).Realizes (op.perform lib ev args) := by
  cases op with
  | setFlag | clearFlag | hasFlag | move | isIn =>
    obtain ⟨target, node, rest, rfl⟩ := exists_cons_cons h
    refine .bind (.argument rfl _) fun o => .bind (.argument rfl _) fun _ => ?_
    exact .bind (.lift _) fun _ => .pure _
  | getProperty =>
    obtain ⟨target, node, rest, rfl⟩ := exists_cons_cons h
    exact .bind (.argument rfl _) fun o => .bind (.argument rfl _) fun property => .lift _
  | putProperty =>
    obtain ⟨target, node, content, rest, rfl⟩ := exists_cons_cons_cons h
    refine .bind (.argument rfl _) fun o => .bind (.argument rfl _) fun property => ?_
    exact .bind (.argument rfl _) fun value => .bind (.lift _) fun _ => .pure _
  | remove | parent | firstChild | nextSibling =>
    obtain ⟨target, rest, rfl⟩ := List.exists_cons_of_length_pos h
    exact .bind (.argument rfl _) fun o => .bind (.lift _) fun _ => .pure _
  | isHeld =>
    obtain ⟨target, rest, rfl⟩ := List.exists_cons_of_length_pos h
    refine .bind (.argument rfl _) fun o => ?_
    refine .bind (holderByPosition_realizes target rest) fun holder => ?_
    cases holder.object? with
    | some p => exact .bind (.lift _) fun _ => .pure _
    | none => exact .pure _
  | isVerb | isDirect | isIndirect => exact .lift _

theorem of_drop_eq_cons {items : List Node} {i : Nat} {node : Node} {rest : List Node}
    (h : items.drop i = node :: rest) : items[i]? = some node ∧ items.drop (i + 1) = rest := by
  rw [← List.head?_drop, ← List.tail_drop, h]
  exact ⟨rfl, rfl⟩

/-- The items from a position on are printed like those of the list that begins there. -/
theorem tellFrom_realizes {items : List Node} : ∀ {rest : List Node} {i : Nat},
    items.drop i = rest → (tellFrom ev items i).Realizes (tellItems ev rest)
  | [], i, h => by
    rw [tellFrom, if_neg (Nat.not_lt.mpr (List.drop_eq_nil_iff.mp h))]
    exact .pure _
  | node :: rest, i, h => by
    obtain ⟨hnode, hrest⟩ := of_drop_eq_cons h
    rw [tellFrom, if_pos (List.getElem?_eq_some_iff.mp hnode).1]
    refine .given (.readAt hnode) ?_
    rcases hmarker : TellMarker.ofNode? node with _ | marker
    · simp only [tellItems.eq_def _ (_ :: _), hmarker]
      refine .bind (.lift _) fun value => .bind (.lift _) fun text => .bind (.lift _) fun _ => ?_
      exact tellFrom_realizes hrest
    cases marker with
    | newline =>
      simp only [tellItems.eq_def _ (_ :: _), hmarker]
      exact .bind (.lift _) fun _ => tellFrom_realizes hrest
    | object | number =>
      -- either marker takes the item after it along, and asks first whether there is one
      obtain _ | ⟨target, rest⟩ := rest
      · simp only [tellItems.eq_def _ (_ :: _), hmarker]
        rw [if_neg (Nat.not_lt.mpr (List.drop_eq_nil_iff.mp hrest))]
        exact .lift _
      · obtain ⟨htarget, hrest⟩ := of_drop_eq_cons hrest
        simp only [tellItems.eq_def _ (_ :: _), hmarker]
        rw [if_pos (List.getElem?_eq_some_iff.mp htarget).1]
        refine .bind (.argument htarget _) fun value => .bind (.lift _) fun _ => ?_
        exact tellFrom_realizes hrest

theorem OutputOp.byPosition_realizes (op : OutputOp)
    (h : (Operation.output op).minimum ≤ args.length) :
    (op.byPosition ev args).Realizes (op.perform ev args) := by
  cases op with
  | tell => exact tellFrom_realizes rfl
  | print | printText =>
    obtain ⟨node, rest, rfl⟩ := List.exists_cons_of_length_pos h
    refine .bind (.argument rfl _) fun value => .bind (.lift _) fun text => ?_
    exact .bind (.lift _) fun _ => .pure _
  | describe | number =>
    obtain ⟨node, rest, rfl⟩ := List.exists_cons_of_length_pos h
    exact .bind (.argument rfl _) fun value => .bind (.lift _) fun _ => .pure _
  | character =>
    obtain ⟨node, rest, rfl⟩ := List.exists_cons_of_length_pos h
    refine .bind (.argument rfl _) fun value => .bind (.lift _) fun c => ?_
    exact .bind (.lift _) fun _ => .pure _
  | newline | quit => exact .lift _

/-- A leading list of flags is split off the items. -/
theorem leadingFlags_realizes (args : List Node) :
    (leadingFlags args).Realizes (pure (tableFlags args)) := by
  refine .given (.readAt? _ _) ?_
  obtain _ | ⟨first, rest⟩ := args
  · exact .pure _
  cases first with
  | list flags span =>
    obtain _ | ⟨flag, flags⟩ := flags
    · exact .pure _
    rw [tableFlags]
    show Noting.Realizes (match (flag :: flags).mapM Node.atom? with | some _ => _ | none => _) _
    cases (flag :: flags).mapM Node.atom? with
    | some names => exact .given (.readTail _ _) (.pure _)
    | none => exact .pure _
  | _ => exact .pure _

theorem tableByPosition_realizes (counted : Bool) :
    (tableByPosition ev counted args).Realizes (tableOf ev counted args) := by
  refine .given (leadingFlags_realizes args) ?_
  rw [tableOf]
  generalize tableFlags args = split
  refine .bind (.lift _) fun values => ?_
  split <;> exact .lift _

theorem fillByPosition_realizes :
    (fillByPosition lib ev args).Realizes (filledTable lib ev args) := by
  refine .given (leadingFlags_realizes args) ?_
  rw [filledTable]
  generalize tableFlags args = split
  obtain ⟨flagged, _ | ⟨node, rest⟩⟩ := split
  · exact .given (.readAt? _ _) (.pure _)
  · refine .given (.readAt? _ _) (.bind (.lift _) fun value => .bind (.lift _) fun count => ?_)
    refine .given (.readTail _ _) ?_
    exact .bind (.lift _) fun fill => .lift _

theorem readByPosition_realizes (target node : Node) (rest : List Node) :
    (readByPosition ev (target :: node :: rest)).Realizes (readCell ev target node) := by
  refine .bind (.argument rfl _) fun table => .bind (.argument rfl _) fun index => ?_
  refine .bind (.lift _) fun t => .bind (.lift _) fun i => ?_
  exact .bind (.lift _) fun content => .lift _

theorem writeByPosition_realizes (operation : String) (convert : Value → Value)
    (target node content : Node) (rest : List Node) :
    (writeByPosition ev operation convert (target :: node :: content :: rest)).Realizes
      (writeCell ev operation convert target node content) := by
  refine .bind (.argument rfl _) fun table => .bind (.argument rfl _) fun index => ?_
  refine .bind (.argument rfl _) fun value => .bind (.lift _) fun t => .bind (.lift _) fun i => ?_
  exact .bind (.lift _) fun _ => .pure _

theorem TableOp.byPosition_realizes (op : TableOp)
    (h : (Operation.table op).minimum ≤ args.length) :
    (op.byPosition lib ev args).Realizes (op.perform lib ev args) := by
  cases op with
  | make => exact tableByPosition_realizes false
  | makeCounted => exact tableByPosition_realizes true
  | fill => exact fillByPosition_realizes
  | get | getByte =>
    obtain ⟨target, node, rest, rfl⟩ := exists_cons_cons h
    exact readByPosition_realizes target node rest
  | put =>
    obtain ⟨target, node, content, rest, rfl⟩ := exists_cons_cons_cons h
    exact writeByPosition_realizes "PUT" id target node content rest
  | putByte =>
    obtain ⟨target, node, content, rest, rfl⟩ := exists_cons_cons_cons h
    exact writeByPosition_realizes "PUTB" byteOf target node content rest

/-- An operation that has its least number of arguments reads none that is missing. -/
theorem Operation.byPosition_realizes (op : Operation) (h : op.minimum ≤ args.length) :
    (op.byPosition lib fuel ev args).Realizes (op.perform lib fuel ev args) := by
  cases op with
  | control op => exact op.byPosition_realizes h
  | binding op => exact op.byPosition_realizes h
  | arithmetic op => exact op.byPosition_realizes h
  | compare op => exact op.byPosition_realizes h
  | object op => exact op.byPosition_realizes h
  | output op => exact op.byPosition_realizes h
  | table op => exact op.byPosition_realizes h

/-- The least number is needed: with one argument a remainder would read a second. -/
example : ((Operation.arithmetic .remainder).byPosition .standard 0 (fun _ => pure (.int 1))
    [default] (.initial .ones)).1 = [.entry 0 1, .entry 1 1] := rfl

end

theorem dispatchByPosition_realizes (lib : Library) (fuel : Nat) (ev : Node → Run Value)
    (operator : String) (args : List Node) :
    (dispatchByPosition lib fuel ev operator args).Realizes
      (dispatch lib fuel ev operator args) := by
  rw [dispatchByPosition]
  rcases hop : lib.operations.lookup? operator with _ | op
  · exact .lift _
  · rw [dispatch, hop]
    dsimp only
    split
    · exact .lift _
    · exact op.byPosition_realizes (Nat.le_of_not_lt ‹_›)

/-- No operation reads an argument that is missing.  Whatever names a library gives to operations
and however nodes are evaluated, a form whose operation reads its arguments by position does what
it does anyway, and every position that it reads is there: among the arguments, among those behind
a list of flags, and among the values that are left when splices are flattened.  With too few
arguments it reads none and evaluates none, fails with the name of the operation, and leaves the
machine as it was. -/
theorem dispatch_reads_within (lib : Library) (fuel : Nat) (ev : Node → Run Value)
    (operator : String) (args : List Node) (m : Machine) :
    (dispatchByPosition lib fuel ev operator args m).2 = dispatch lib fuel ev operator args m ∧
      (∀ access ∈ (dispatchByPosition lib fuel ev operator args m).1, access.Within) ∧
      ∀ op, lib.operations.lookup? operator = some op → args.length < op.minimum →
        (dispatchByPosition lib fuel ev operator args m).1 = [] ∧
          dispatch lib fuel ev operator args m =
            (.failed (.ofFault (.arity op.name op.minimum args.length)), m) := by
  obtain ⟨hends, hwithin⟩ := dispatchByPosition_realizes lib fuel ev operator args m
  refine ⟨hends, hwithin, fun op hop hshort => ?_⟩
  rw [dispatchByPosition, dispatch, hop]
  dsimp only
  rw [if_pos hshort, if_pos hshort]
  exact ⟨rfl, rfl⟩

/-- A table of flags alone has no count to read, and the greatest of an empty splice no number.  An
operation called by a further name with one argument too few reads and evaluates none, so the game
does not end. -/
theorem dispatch_reads_within_peek :
    let lib : Library :=
      { Library.standard with
        operations := Registry.standard.register "peek" (.object .getProperty) }
    let ev := eval lib 3
    let m := Machine.initial .ones
    let flags : List Node := [.list [.atom "BYTE" default] default]
    let spliced : List Node := [.marked .splice (.marked .quote (.list [] default) default) default]
    let short : List Node := [.form "QUIT" [] default]
    (dispatchByPosition lib 3 ev "ITABLE" flags m =
        ([.entry 0 1, .rest 1 1], .done (.bool false), m) ∧
      ∀ access ∈ (dispatchByPosition lib 3 ev "ITABLE" flags m).1, access.Within) ∧
    (dispatchByPosition lib 3 ev "MAX" spliced m =
        ([], .failed (.ofFault (.arity "MAX" 1 0)), m) ∧
      (dispatchByPosition lib 3 ev "MAX" spliced m).2 = dispatch lib 3 ev "MAX" spliced m) ∧
    lib.operations.lookup? "PEEK" = some (.object .getProperty) ∧ short.length < 2 ∧
    dispatch lib 3 ev "PEEK" short m = (.failed (.ofFault (.arity "GETP" 2 1)), m) := by
  intro lib ev m flags spliced short
  have hpeek : lib.operations.lookup? "PEEK" = some (.object .getProperty) := by decide
  have hshort : short.length < 2 := by decide
  refine ⟨⟨rfl, (dispatch_reads_within lib 3 ev "ITABLE" flags m).2.1⟩,
    ⟨rfl, (dispatch_reads_within lib 3 ev "MAX" spliced m).1⟩, hpeek, hshort, ?_⟩
  exact ((dispatch_reads_within lib 3 ev "PEEK" short m).2.2 _ hpeek hshort).2

end TextAdventure
