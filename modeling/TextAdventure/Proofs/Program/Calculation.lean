import Mathlib.Algebra.BigOperators.Group.List.Basic
import Mathlib.Algebra.Ring.Int.Defs
import TextAdventure.Proofs.Program.Comparison

/-!
Calculating with any number of arguments.

One fold serves sums, differences, products and quotients.  It first asks that all its arguments be
numbers and only then begins to calculate, so a value of another kind is the fault even where a
divisor is zero; and from the first float on it goes on with floats.

* `expectNumbers_eq_error` — the first value that is no number is the fault;
* `FoldOp.isFloat_accumulate` — a float that takes part makes the result a float;
* `FoldOp.accumulate_ints` — on integers only a zero among the divisors is a fault;
* `FoldOp.toInt_foldl_ints` — reducing each sum, difference or product to 64 bits comes to reducing
  the last one;
* `toInt_foldl_div` — a quotient is exact, except that of the least integer by -1;
* `eval_arithmetic_exact` — so the four operations come to what is expected of them, and the
  remainder fits the quotient.
-/

namespace TextAdventure

/-! ### Values that are numbers -/

def Value.isNumber (v : Value) : Bool := v.number?.isSome

def Value.isFloat : Value → Bool
  | .float _ => true
  | _ => false

theorem Numeric.isNumber_toValue (n : Numeric) : n.toValue.isNumber = true := by
  cases n <;> rfl

theorem exists_expectNumber {v : Value} (h : v.isNumber = true) (operation : String) :
    ∃ n : Numeric, expectNumber operation v = .ok n ∧ n.toValue = v := by
  cases v with
  | int n => exact ⟨.int n, rfl, rfl⟩
  | float x => exact ⟨.float x, rfl, rfl⟩
  | _ => simp [Value.isNumber, Value.number?] at h

theorem expectNumber_eq_error {v : Value} (h : v.isNumber = false) (operation : String) :
    expectNumber operation v = .error (.typeMismatch operation "number" v.typeName) := by
  cases v with
  | int n => simp [Value.isNumber, Value.number?] at h
  | float x => simp [Value.isNumber, Value.number?] at h
  | _ => rfl

theorem exists_expectNumbers {values : List Value} (h : ∀ v ∈ values, v.isNumber = true)
    (operation : String) :
    ∃ ns : List Numeric, expectNumbers operation values = .ok ns ∧
      ns.map Numeric.toValue = values := by
  induction values with
  | nil => exact ⟨[], rfl, rfl⟩
  | cons v values ih =>
    obtain ⟨n, hn, hv⟩ := exists_expectNumber (h v List.mem_cons_self) operation
    obtain ⟨ns, hns, hvalues⟩ := ih fun u hu => h u (List.mem_cons_of_mem v hu)
    refine ⟨n :: ns, ?_, by simp [hv, hvalues]⟩
    rw [expectNumbers, hn, hns]
    rfl

/-- The first value that is no number is the fault, whatever follows it. -/
theorem expectNumbers_eq_error {values : List Value} {v : Value}
    (h : values.find? (! ·.isNumber) = some v) (operation : String) :
    expectNumbers operation values = .error (.typeMismatch operation "number" v.typeName) := by
  induction values with
  | nil => simp at h
  | cons u values ih =>
    rw [expectNumbers]
    by_cases hu : u.isNumber = true
    · obtain ⟨n, hn, -⟩ := exists_expectNumber hu operation
      rw [List.find?_cons_of_neg (by simp [hu])] at h
      rw [hn, ih h]
      rfl
    · rw [Bool.not_eq_true] at hu
      rw [List.find?_cons_of_pos (by simp [hu])] at h
      obtain rfl := Option.some.inj h
      rw [expectNumber_eq_error hu]
      rfl

theorem foldNumbers_eq_error {values : List Value} {v : Value}
    (h : values.find? (! ·.isNumber) = some v) (op : FoldOp) :
    foldNumbers op values = .error (.typeMismatch op.name "number" v.typeName) := by
  rw [foldNumbers, expectNumbers_eq_error h]
  rfl

/-! ### Floats -/

namespace FoldOp

theorem isFloat_apply {op : FoldOp} {a b c : Numeric} (h : op.apply a b = .ok c) :
    c.toValue.isFloat = (a.toValue.isFloat || b.toValue.isFloat) := by
  -- in three of the four cases the operation is done on floats
  have hfloats (x y : Binary64) (hfloat : (op.onFloats x y).map Numeric.float = .ok c) :
      c.toValue.isFloat = true := by
    cases hz : op.onFloats x y with
    | error fault => simp [hz, Except.map] at hfloat
    | ok z =>
      simp only [hz, Except.map, Except.ok.injEq] at hfloat
      rw [← hfloat]
      rfl
  cases a with
  | int m =>
    cases b with
    | int n =>
      cases hk : op.onInts m n with
      | error fault => simp [apply, hk, Except.map] at h
      | ok k =>
        simp only [apply, hk, Except.map, Except.ok.injEq] at h
        rw [← h]
        rfl
    | float y => exact hfloats _ _ h
  | float x => exact hfloats _ _ h

/-- A float that takes part makes the result a float. -/
theorem isFloat_accumulate {op : FoldOp} {total c : Numeric} {ns : List Numeric}
    (h : op.accumulate total ns = .ok c) :
    c.toValue.isFloat = (total.toValue.isFloat || ns.any (·.toValue.isFloat)) := by
  induction ns generalizing total with
  | nil =>
    obtain rfl := Except.ok.inj h
    simp
  | cons n ns ih =>
    rw [accumulate] at h
    split at h
    · rename_i next hnext
      rw [ih h, isFloat_apply hnext, List.any_cons, Bool.or_assoc]
    · cases h

/-- Only a division can fail. -/
theorem exists_accumulate {op : FoldOp} (hop : op ≠ .div) (total : Numeric) (ns : List Numeric) :
    ∃ c, op.accumulate total ns = .ok c := by
  induction ns generalizing total with
  | nil => exact ⟨total, rfl⟩
  | cons n ns ih =>
    have hstep : ∃ next, op.apply total n = .ok next := by
      cases op with
      | div => exact absurd rfl hop
      | _ => cases total <;> cases n <;> exact ⟨_, rfl⟩
    obtain ⟨next, hnext⟩ := hstep
    obtain ⟨c, hc⟩ := ih next
    exact ⟨c, by rw [accumulate, hnext]; exact hc⟩

end FoldOp

/-- What arguments are combined with: the first, or where there is only one the identity. -/
def leftOperand {α : Type} (identity : α) : List α → α
  | first :: _ :: _ => first
  | _ => identity

/-- The arguments that are combined with it: all but the first, or the only one. -/
def rightOperands {α : Type} : List α → List α
  | _ :: second :: rest => second :: rest
  | few => few

theorem combineNumbers_eq (op : FoldOp) (ns : List Numeric) :
    combineNumbers op ns =
      op.accumulate (leftOperand (.int op.identity) ns) (rightOperands ns) := by
  match ns with
  | [] => rfl
  | [n] =>
    show op.apply (.int op.identity) n = op.accumulate (.int op.identity) [n]
    rw [FoldOp.accumulate]
    cases op.apply (.int op.identity) n <;> rfl
  | first :: second :: rest => rfl

theorem foldNumbers_eq {op : FoldOp} {values : List Value} {ns : List Numeric}
    (h : expectNumbers op.name values = .ok ns) :
    foldNumbers op values =
      (op.accumulate (leftOperand (.int op.identity) ns) (rightOperands ns)).map
        Numeric.toValue := by
  have hresult : foldNumbers op values = (combineNumbers op ns).map Numeric.toValue := by
    rw [foldNumbers, h]
    show (combineNumbers op ns >>= fun result => pure result.toValue) = _
    cases combineNumbers op ns <;> rfl
  rw [hresult, combineNumbers_eq]

theorem any_operands (op : FoldOp) (ns : List Numeric) :
    ((leftOperand (.int op.identity) ns).toValue.isFloat ||
      (rightOperands ns).any (·.toValue.isFloat)) = ns.any (·.toValue.isFloat) := by
  match ns with
  | [] => rfl
  | [n] => rfl
  | first :: second :: rest => rfl

/-- Numbers come to a number, which is a float when one of them is; and except by division they
always come to one. -/
theorem foldNumbers_numbers (op : FoldOp) {values : List Value}
    (h : ∀ v ∈ values, v.isNumber = true) :
    (op ≠ .div → ∃ r, foldNumbers op values = .ok r) ∧
    ∀ r, foldNumbers op values = .ok r →
      r.isNumber = true ∧ (r.isFloat = true ↔ ∃ v ∈ values, v.isFloat = true) := by
  obtain ⟨ns, hns, rfl⟩ := exists_expectNumbers h op.name
  rw [foldNumbers_eq hns]
  constructor
  · intro hop
    obtain ⟨c, hc⟩ :=
      FoldOp.exists_accumulate hop (leftOperand (.int op.identity) ns) (rightOperands ns)
    exact ⟨c.toValue, by rw [hc]; rfl⟩
  · intro r hr
    cases hc : op.accumulate (leftOperand (.int op.identity) ns) (rightOperands ns) with
    | error fault => simp [hc, Except.map] at hr
    | ok c =>
      simp only [hc, Except.map, Except.ok.injEq] at hr
      subst hr
      refine ⟨c.isNumber_toValue, ?_⟩
      rw [FoldOp.isFloat_accumulate hc, any_operands]
      simp

/-! ### Integers -/

/-- Division toward zero.  The quotient of the least integer by -1 has no place among the integers
and comes round to the least again. -/
def wrappedQuotient (a b : Int) : Int := if a = -2 ^ 63 ∧ b = -1 then -2 ^ 63 else a.tdiv b

namespace FoldOp

/-- What is expected of an operation on whole numbers: exact results reduced to 64 bits, and
quotients one after another.  A single number is subtracted from zero and divides one. -/
def expected : FoldOp → List Int → Int
  | .add, ns => ns.sum.bmod (2 ^ 64)
  | .mul, ns => ns.prod.bmod (2 ^ 64)
  | .sub, [] => 0
  | .sub, [n] => (-n).bmod (2 ^ 64)
  | .sub, first :: rest => (first - rest.sum).bmod (2 ^ 64)
  | .div, [] => 1
  | .div, [n] => wrappedQuotient 1 n
  | .div, first :: rest => rest.foldl wrappedQuotient first

/-- The operation on two integers where it does not fail. -/
def ints : FoldOp → Int64 → Int64 → Int64
  | .add, a, b => a + b
  | .sub, a, b => a - b
  | .mul, a, b => a * b
  | .div, a, b => a / b

/-- The operation on two whole numbers. -/
def whole : FoldOp → Int → Int → Int
  | .add, a, b => a + b
  | .sub, a, b => a - b
  | .mul, a, b => a * b
  | .div, a, b => a.tdiv b

/-- Only a zero among the divisors is a fault. -/
theorem accumulate_ints (op : FoldOp) (total : Int64) (ns : List Int64) :
    op.accumulate (.int total) (ns.map .int) =
      if op = .div ∧ 0 ∈ ns then .error .divisionByZero
      else .ok (.int (ns.foldl op.ints total)) := by
  induction ns generalizing total with
  | nil => simp [accumulate]
  | cons n ns ih =>
    by_cases hzero : op = .div ∧ n = 0
    -- a divisor of zero is found as soon as it is come to
    · obtain ⟨rfl, rfl⟩ := hzero
      simp [accumulate, apply, onInts, Except.map]
    · have hstep : op.apply (.int total) (.int n) = .ok (.int (op.ints total n)) := by
        cases op with
        | div =>
          have hn : n ≠ 0 := fun hn => hzero ⟨rfl, hn⟩
          simp [apply, onInts, ints, hn, Except.map]
        | _ => rfl
      have hmem : op = .div ∧ 0 ∈ n :: ns ↔ op = .div ∧ 0 ∈ ns := by
        refine and_congr_right fun hop => ?_
        rw [List.mem_cons]
        exact or_iff_right fun hn => hzero ⟨hop, hn.symm⟩
      rw [List.map_cons, accumulate, hstep]
      simp only [ih, hmem, List.foldl_cons]

theorem toInt_ints (op : FoldOp) (a b : Int64) :
    (op.ints a b).toInt = (op.whole a.toInt b.toInt).bmod (2 ^ 64) := by
  cases op with
  | add => exact Int64.toInt_add a b
  | sub => exact Int64.toInt_sub a b
  | mul => exact Int64.toInt_mul a b
  | div => exact Int64.toInt_div a b

/-- It is all the same to a sum, a difference or a product when its operands are reduced. -/
theorem whole_bmod {op : FoldOp} (hop : op ≠ .div) (a b : Int) :
    (op.whole (a.bmod (2 ^ 64)) b).bmod (2 ^ 64) = (op.whole a b).bmod (2 ^ 64) := by
  cases op with
  | add => exact Int.bmod_add_bmod
  | sub => exact Int.bmod_sub_bmod
  | mul => exact Int.bmod_mul_bmod
  | div => exact absurd rfl hop

/-- Reducing each result to 64 bits comes to reducing the last one. -/
theorem toInt_foldl_ints {op : FoldOp} (hop : op ≠ .div) {total : Int64} {exact : Int}
    (htotal : total.toInt = exact.bmod (2 ^ 64)) (ns : List Int64) :
    (ns.foldl op.ints total).toInt =
      ((ns.map Int64.toInt).foldl op.whole exact).bmod (2 ^ 64) := by
  -- the total so far is the exact one, reduced
  induction ns generalizing total exact with
  | nil => exact htotal
  | cons n ns ih =>
    have hnext : (op.ints total n).toInt = (op.whole exact n.toInt).bmod (2 ^ 64) := by
      rw [toInt_ints, htotal, whole_bmod hop]
    exact ih hnext

theorem foldl_whole (first : Int) (ns : List Int) :
    ns.foldl (whole .add) first = first + ns.sum ∧
    ns.foldl (whole .sub) first = first - ns.sum ∧
    ns.foldl (whole .mul) first = first * ns.prod := by
  induction ns generalizing first with
  | nil => simp
  | cons n ns ih =>
    obtain ⟨hadd, -, -⟩ := ih (first + n)
    obtain ⟨-, hsub, -⟩ := ih (first - n)
    obtain ⟨-, -, hmul⟩ := ih (first * n)
    simp only [List.foldl_cons, whole, hadd, hsub, hmul, List.sum_cons, List.prod_cons]
    exact ⟨by omega, by omega, mul_assoc first n ns.prod⟩

end FoldOp

/-- A quotient of two integers is exact, except that of the least by -1. -/
theorem toInt_div_eq (a b : Int64) : (a / b).toInt = wrappedQuotient a.toInt b.toInt := by
  have hleast : a.toInt = -2 ^ 63 ↔ a = Int64.minValue := by
    rw [← Int64.toInt_minValue, Int64.toInt_inj]
  have hminusOne : b.toInt = -1 ↔ b = -1 := by
    rw [← Int64.toInt_inj]
    rfl
  simp only [wrappedQuotient, hleast, hminusOne]
  -- it is enough for an exact quotient that one of the two is not as in the exception
  by_cases h : a = Int64.minValue ∧ b = -1
  · obtain ⟨rfl, rfl⟩ := h
    rw [if_pos ⟨rfl, rfl⟩, Int64.minValue_div_neg_one, Int64.toInt_minValue]
  · rw [if_neg h]
    by_cases ha : a = Int64.minValue
    · exact Int64.toInt_div_of_ne_right a b fun hb => h ⟨ha, hb⟩
    · exact Int64.toInt_div_of_ne_left a b ha

theorem toInt_foldl_div (first : Int64) (ns : List Int64) :
    (ns.foldl (FoldOp.ints .div) first).toInt =
      (ns.map Int64.toInt).foldl wrappedQuotient first.toInt := by
  induction ns generalizing first with
  | nil => rfl
  | cons n ns ih =>
    rw [List.foldl_cons, ih, FoldOp.ints, toInt_div_eq]
    rfl

theorem rightOperands_map {α β : Type} (f : α → β) (as : List α) :
    rightOperands (as.map f) = (rightOperands as).map f := by
  match as with
  | [] => rfl
  | [a] => rfl
  | a :: b :: rest => rfl

theorem leftOperand_map {α β : Type} (f : α → β) (identity : α) (as : List α) :
    leftOperand (f identity) (as.map f) = f (leftOperand identity as) := by
  match as with
  | [] => rfl
  | [a] => rfl
  | a :: b :: rest => rfl

theorem foldNumbers_ints (op : FoldOp) (ns : List Int64) :
    foldNumbers op (ns.map .int) =
      if op = .div ∧ 0 ∈ rightOperands ns then .error .divisionByZero
      else .ok (.int ((rightOperands ns).foldl op.ints (leftOperand op.identity ns))) := by
  rw [foldNumbers_eq (expectNumbers_ints op.name ns), rightOperands_map, leftOperand_map,
    FoldOp.accumulate_ints]
  split <;> rfl

/-- The fold of the integers is what is expected. -/
theorem toInt_foldl_operands (op : FoldOp) (ns : List Int64) :
    ((rightOperands ns).foldl op.ints (leftOperand op.identity ns)).toInt =
      op.expected (ns.map Int64.toInt) := by
  have hreduced (n : Int64) : n.toInt = n.toInt.bmod (2 ^ 64) := (Int64.toInt_bmod n).symm
  cases op with
  | add =>
    rw [FoldOp.toInt_foldl_ints (by decide) (hreduced _), (FoldOp.foldl_whole _ _).1]
    match ns with
    | [] => rfl
    | [n] => simp [leftOperand, rightOperands, FoldOp.expected, FoldOp.identity]
    | first :: second :: rest => rfl
  | sub =>
    rw [FoldOp.toInt_foldl_ints (by decide) (hreduced _), (FoldOp.foldl_whole _ _).2.1]
    match ns with
    | [] => rfl
    | [n] => simp [leftOperand, rightOperands, FoldOp.expected, FoldOp.identity]
    | first :: second :: rest => rfl
  | mul =>
    rw [FoldOp.toInt_foldl_ints (by decide) (hreduced _), (FoldOp.foldl_whole _ _).2.2]
    match ns with
    | [] => rfl
    | [n] => simp [leftOperand, rightOperands, FoldOp.expected, FoldOp.identity]
    | first :: second :: rest => simp [leftOperand, rightOperands, FoldOp.expected]
  | div =>
    rw [toInt_foldl_div]
    match ns with
    | [] => rfl
    | [n] => rfl
    | first :: second :: rest => rfl

/-- The sum and the product of integers do not depend on their order. -/
theorem foldNumbers_perm {op : FoldOp} (hop : op = .add ∨ op = .mul) {ns ns' : List Int64}
    (h : ns.Perm ns') : foldNumbers op (ns.map .int) = foldNumbers op (ns'.map .int) := by
  have hdiv : op ≠ .div := by rintro rfl; simp at hop
  have hexpected : op.expected (ns.map Int64.toInt) = op.expected (ns'.map Int64.toInt) := by
    have hwhole := h.map Int64.toInt
    rcases hop with rfl | rfl
    · simp only [FoldOp.expected, hwhole.sum_eq]
    · simp only [FoldOp.expected, hwhole.prod_eq]
  rw [foldNumbers_ints, foldNumbers_ints, if_neg (by simp [hdiv]), if_neg (by simp [hdiv])]
  -- what is expected is the same, and an integer is known by its whole number
  rw [← toInt_foldl_operands, ← toInt_foldl_operands, Int64.toInt_inj] at hexpected
  rw [hexpected]

/-! ### Quotient and remainder -/

theorem foldNumbers_div_pair {a b : Int64} (hb : b ≠ 0) :
    foldNumbers .div [.int a, .int b] = .ok (.int (a / b)) := by
  have hzero : 0 ∉ rightOperands [a, b] := by simpa [rightOperands] using hb.symm
  exact (foldNumbers_ints .div [a, b]).trans (if_neg fun h => hzero h.2)

theorem intRemainder_of_ne_zero {a b : Int64} (hb : b ≠ 0) : intRemainder a b = .ok (a % b) := by
  rw [intRemainder, if_neg hb]

theorem intRemainder_eq_divisionByZero (a b : Int64) :
    intRemainder a b = .error .divisionByZero ↔ b = 0 := by
  by_cases hb : b = 0
  · simp [intRemainder, hb]
  · simp [intRemainder_of_ne_zero hb, hb]

/-- Quotient and remainder give back the dividend, up to the reduction to 64 bits. -/
theorem bmod_div_mul_add_mod (a b : Int64) :
    ((a / b).toInt * b.toInt + (a % b).toInt).bmod (2 ^ 64) = a.toInt := by
  calc ((a / b).toInt * b.toInt + (a % b).toInt).bmod (2 ^ 64)
      = ((a.toInt.tdiv b.toInt).bmod (2 ^ 64) * b.toInt + a.toInt.tmod b.toInt).bmod (2 ^ 64) := by
        rw [Int64.toInt_div, Int64.toInt_mod]
    _ = (a.toInt.tdiv b.toInt * b.toInt + a.toInt.tmod b.toInt).bmod (2 ^ 64) := by
        rw [← Int.bmod_add_bmod, Int.bmod_mul_bmod, Int.bmod_add_bmod]
    _ = a.toInt.bmod (2 ^ 64) := by rw [Int.tdiv_mul_add_tmod]
    _ = a.toInt := Int64.toInt_bmod a

theorem natAbs_mod_lt (a : Int64) {b : Int64} (hb : b ≠ 0) :
    (a % b).toInt.natAbs < b.toInt.natAbs := by
  have hpos : b.toInt ≠ 0 := fun h => hb (Int64.toInt_inj.mp h)
  rw [Int64.toInt_mod, Int.natAbs_tmod]
  exact Nat.mod_lt _ (by omega)

/-- A remainder has the sign of the dividend. -/
theorem mod_eq_zero_or_sign (a b : Int64) :
    a % b = 0 ∨ (a % b).toInt.sign = a.toInt.sign := by
  have hsign := Int.sign_tmod a.toInt b.toInt
  rw [← Int64.toInt_mod] at hsign
  by_cases hdvd : b.toInt ∣ a.toInt
  · rw [if_pos hdvd, Int.sign_eq_zero_iff_zero] at hsign
    exact .inl (Int64.toInt_inj.mp hsign)
  · rw [if_neg hdvd] at hsign
    exact .inr hsign

/-! ### Forms -/

section

variable {lib : Library} {fuel : Nat} {operator : String} {m m₁ m₂ : Machine}

theorem eval_fold {op : FoldOp}
    (hlookup : lib.operations.lookup? operator = some (.arithmetic (.fold op)))
    {args : List Node} {values : List Value}
    (hlength : (Operation.arithmetic (.fold op)).minimum ≤ args.length)
    (hargs : evalAll (eval lib fuel) args m = (.done values, m₁)) (span : Span) :
    eval lib (fuel + 1) (.form operator args span) m =
      Run.ofExcept (foldNumbers op values) m₁ := by
  rw [eval_operation hlookup fuel hlength]
  exact Run.bind_of_done hargs

theorem eval_remainder
    (hlookup : lib.operations.lookup? operator = some (.arithmetic .remainder)) {x y : Node}
    {a b : Int64} (hx : eval lib fuel x m = (.done (.int a), m₁))
    (hy : eval lib fuel y m₁ = (.done (.int b), m₂)) (more : List Node) (span : Span) :
    eval lib (fuel + 1) (.form operator (x :: y :: more) span) m =
      Run.ofExcept ((intRemainder a b).map .int) m₂ := by
  have hlength : (Operation.arithmetic .remainder).minimum ≤ (x :: y :: more).length := by
    simp [Operation.minimum]
  rw [eval_operation hlookup fuel hlength]
  refine (Run.bind_of_done hx).trans ((Run.bind_of_done hy).trans ?_)
  show (Run.ofExcept (intRemainder a b) >>= fun n => pure (Value.int n)) m₂ = _
  cases intRemainder a b <;> rfl

end

/-- What arithmetic makes of its arguments, whatever these are.  A form of `+`, `-`, `*` or `/`
evaluates its arguments and folds their values.  If one of them is no number, that is the fault,
and the first such value is named.  Otherwise a result is a number, and a float exactly when one of
the arguments is; and only a division can fail.  On integers a division fails exactly when one of
its divisors is zero, and all else comes to what is expected: exact sums, differences and products
reduced to 64 bits, so that sums and products do not depend on the order, and quotients one after
another, of which only that of the least integer by -1 comes round.  The remainder fails exactly on
a divisor of zero; otherwise it makes up the quotient to the dividend, is smaller than the divisor,
and has the sign of the dividend. -/
theorem eval_arithmetic_exact (lib : Library) (fuel : Nat) :
    (∀ op operator args values span m m',
      lib.operations.lookup? operator = some (.arithmetic (.fold op)) →
      (Operation.arithmetic (.fold op)).minimum ≤ args.length →
      evalAll (eval lib fuel) args m = (.done values, m') →
      eval lib (fuel + 1) (.form operator args span) m =
        Run.ofExcept (foldNumbers op values) m') ∧
    (∀ operator x y more a b span m m₁ m₂,
      lib.operations.lookup? operator = some (.arithmetic .remainder) →
      eval lib fuel x m = (.done (.int a), m₁) → eval lib fuel y m₁ = (.done (.int b), m₂) →
      eval lib (fuel + 1) (.form operator (x :: y :: more) span) m =
        Run.ofExcept ((intRemainder a b).map .int) m₂) ∧
    (∀ op values, (∃ v ∈ values, v.isNumber = false) →
      ∃ v, values.find? (! ·.isNumber) = some v ∧
        foldNumbers op values = .error (.typeMismatch op.name "number" v.typeName)) ∧
    (∀ op values, (∀ v ∈ values, v.isNumber = true) →
      (op ≠ .div → ∃ r, foldNumbers op values = .ok r) ∧
      ∀ r, foldNumbers op values = .ok r →
        r.isNumber = true ∧ (r.isFloat = true ↔ ∃ v ∈ values, v.isFloat = true)) ∧
    (∀ ns : List Int64, foldNumbers .div (ns.map .int) = .error .divisionByZero ↔
      0 ∈ rightOperands ns) ∧
    (∀ op (ns : List Int64), (op = .div → 0 ∉ rightOperands ns) →
      ∃ n, foldNumbers op (ns.map .int) = .ok (.int n) ∧
        n.toInt = op.expected (ns.map Int64.toInt)) ∧
    (∀ op (ns ns' : List Int64), op = .add ∨ op = .mul → ns.Perm ns' →
      foldNumbers op (ns.map .int) = foldNumbers op (ns'.map .int)) ∧
    ∀ a b : Int64, (intRemainder a b = .error .divisionByZero ↔ b = 0) ∧
      (b ≠ 0 → ∃ q r, foldNumbers .div [.int a, .int b] = .ok (.int q) ∧
        intRemainder a b = .ok r ∧ (q.toInt * b.toInt + r.toInt).bmod (2 ^ 64) = a.toInt ∧
        r.toInt.natAbs < b.toInt.natAbs ∧ (r = 0 ∨ r.toInt.sign = a.toInt.sign)) := by
  refine ⟨?_, ?_, ?_, ?_, ?_, ?_, ?_, ?_⟩
  · intro op operator args values span m m' hlookup hlength hargs
    exact eval_fold hlookup hlength hargs span
  · intro operator x y more a b span m m₁ m₂ hlookup hx hy
    exact eval_remainder hlookup hx hy more span
  · rintro op values ⟨u, hu, hother⟩
    have hsome : (values.find? (! ·.isNumber)).isSome := by
      rw [List.find?_isSome]
      exact ⟨u, hu, by simp [hother]⟩
    obtain ⟨v, hv⟩ := Option.isSome_iff_exists.mp hsome
    exact ⟨v, hv, foldNumbers_eq_error hv op⟩
  · intro op values hnumbers
    exact foldNumbers_numbers op hnumbers
  · intro ns
    rw [foldNumbers_ints]
    by_cases hzero : 0 ∈ rightOperands ns <;> simp [hzero]
  · intro op ns hdivisors
    rw [foldNumbers_ints, if_neg fun h => hdivisors h.1 h.2]
    exact ⟨_, rfl, toInt_foldl_operands op ns⟩
  · intro op ns ns' hop hperm
    exact foldNumbers_perm hop hperm
  · intro a b
    refine ⟨intRemainder_eq_divisionByZero a b, fun hb => ?_⟩
    exact ⟨a / b, a % b, foldNumbers_div_pair hb, intRemainder_of_ne_zero hb,
      bmod_div_mul_add_mod a b, natAbs_mod_lt a hb, mod_eq_zero_or_sign a b⟩

theorem standard_arithmetic :
    Library.standard.operations.lookup? "/" = some (.arithmetic (.fold .div)) ∧
    Library.standard.operations.lookup? "MOD" = some (.arithmetic .remainder) := by
  decide +kernel

/-- The least integer divided by -1 is itself again and leaves no remainder; and a string among the
divisors is the fault although another divisor is zero. -/
theorem eval_arithmetic_exact_least :
    (∃ q : Int64, q.toInt = -2 ^ 63 ∧
      eval .standard 2 (formOfInts "/" Int64.minValue (-1)) (.initial .ones) =
        (.done (.int q), .initial .ones)) ∧
    (∃ r : Int64, r.toInt.natAbs < 1 ∧
      eval .standard 2 (formOfInts "MOD" Int64.minValue (-1)) (.initial .ones) =
        (.done (.int r), .initial .ones)) ∧
    eval .standard 2 (.form "/" [.literal (.int 1) default, .literal (.int 0) default,
        .literal (.string "two") default] default) (.initial .ones) =
      (.failed (.ofFault (.typeMismatch "/" "number" "string")), .initial .ones) := by
  obtain ⟨hfold, hremainder, hother, -, -, hints, -, hmod⟩ := eval_arithmetic_exact .standard 1
  obtain ⟨hdivide, hmodulo⟩ := standard_arithmetic
  refine ⟨?_, ?_, ?_⟩
  · obtain ⟨q, hq, hexpected⟩ := hints .div [Int64.minValue, -1] fun _ => by decide
    refine ⟨q, hexpected.trans (by decide), ?_⟩
    refine (hfold .div "/" _ _ default _ _ hdivide (by exact Nat.le_succ 1) rfl).trans ?_
    exact congrArg (fun e => Run.ofExcept e (Machine.initial .ones)) hq
  · obtain ⟨q, r, -, hr, -, hlt, -⟩ := (hmod Int64.minValue (-1)).2 (by decide)
    refine ⟨r, hlt, (hremainder "MOD" _ _ [] _ _ default _ _ _ hmodulo rfl rfl).trans ?_⟩
    rw [hr]
    rfl
  · obtain ⟨v, hv, hfault⟩ :=
      hother .div [.int 1, .int 0, .string "two"] ⟨.string "two", by simp, rfl⟩
    obtain rfl := Option.some.inj hv
    refine (hfold .div "/" _ _ default _ _ hdivide (by decide) rfl).trans ?_
    exact congrArg (fun e => Run.ofExcept e (Machine.initial .ones)) hfault

end TextAdventure
