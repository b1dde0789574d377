import TextAdventure.Proofs.Number.Rounding
import TextAdventure.Proofs.Program.ShortCircuit

/-!
Comparing integers.

The order of two integers is exact.  Equality and the choice of the least or the greatest go by
the nearest floats, and from 2⁵³ on these do not keep all integers apart.

* `eval_compare_ints` — the six comparisons of two integers agree with each other exactly when
  different integers have different floats;
* `compare_neighbours` — the integers 2⁵³ and 2⁵³ + 1 are both in order and equal;
* `Extreme.pick_ints` — the least of some integers, or the greatest, is chosen up to its float;
* `eval_extreme_ints` — so the choice is right, and does not depend on the order of the arguments,
  when the right one shares its float with no other;
* `extreme_neighbours` — for 2⁵³ and 2⁵³ + 1 the first is chosen, whichever it is.
-/

namespace TextAdventure

open Binary64 (ofInt)

/-! ### Equality and order -/

/-- Two integers become the same float. -/
def SameFloat (a b : Int64) : Prop := ofInt a.toInt = ofInt b.toInt

instance (a b : Int64) : Decidable (SameFloat a b) := inferInstanceAs (Decidable (_ = _))

theorem SameFloat.refl (a : Int64) : SameFloat a a := rfl

theorem Value.equals_ints (a b : Int64) :
    (Value.int a).equals (.int b) = true ↔ SameFloat a b := by
  show ((ofInt a.toInt).totalKey == (ofInt b.toInt).totalKey) = true ↔ _
  rw [beq_iff_eq]
  exact ⟨Binary64.totalKey_injective, fun h => by rw [h]⟩

/-- What a comparison of two integers comes to. -/
def CompareOp.onInts (a b : Int64) : CompareOp → Bool
  | .equal => (Value.int a).equals (.int b)
  | .differ => !(Value.int a).equals (.int b)
  | .order which => which.holds (compare a.toInt b.toInt)
  | .isZero => (Value.int a).equals (.int 0)
  | .isOne => (Value.int a).equals (.int 1)

section

variable {lib : Library} {fuel : Nat} {operator : String} {m m₁ m₂ : Machine}

/-- A comparison of two arguments evaluates both and compares their values. -/
theorem eval_compare {op : CompareOp} (hop : (Operation.compare op).minimum = 2)
    (hlookup : lib.operations.lookup? operator = some (.compare op)) {x y : Node} {a b : Int64}
    (hx : eval lib fuel x m = (.done (.int a), m₁))
    (hy : eval lib fuel y m₁ = (.done (.int b), m₂)) (span : Span) :
    eval lib (fuel + 1) (.form operator [x, y] span) m = (.done (.bool (op.onInts a b)), m₂) := by
  have hlength : (Operation.compare op).minimum ≤ [x, y].length := Nat.le_of_eq hop
  have hany : anyEqual (eval lib fuel) (.int a) [y] m₁ =
      (.done ((Value.int a).equals (.int b)), m₂) := by
    refine (Run.bind_of_done hy).trans ?_
    cases (Value.int a).equals (.int b) <;> rfl
  rw [eval_operation hlookup fuel hlength]
  cases op with
  | equal => exact (Run.bind_of_done hx).trans (Run.bind_of_done hany)
  | differ => exact (Run.bind_of_done hx).trans (Run.bind_of_done hany)
  | order which => exact (Run.bind_of_done hx).trans (Run.bind_of_done hy)
  | isZero => cases hop
  | isOne => cases hop

theorem onInts_less (a b : Int64) : CompareOp.onInts a b (.order .less) = true ↔ a < b := by
  rw [Int64.lt_iff_toInt_lt, ← Int.compare_eq_lt]
  exact Ordering.isLT_iff_eq_lt

theorem onInts_greater (a b : Int64) : CompareOp.onInts a b (.order .greater) = true ↔ b < a := by
  rw [Int64.lt_iff_toInt_lt, ← Int.compare_eq_gt]
  exact Ordering.isGT_iff_eq_gt

theorem onInts_atMost (a b : Int64) :
    CompareOp.onInts a b (.order .atMost) = !CompareOp.onInts a b (.order .greater) := by
  show (compare a.toInt b.toInt).isLE = !(compare a.toInt b.toInt).isGT
  cases compare a.toInt b.toInt <;> rfl

theorem onInts_atLeast (a b : Int64) :
    CompareOp.onInts a b (.order .atLeast) = !CompareOp.onInts a b (.order .less) := by
  show (compare a.toInt b.toInt).isGE = !(compare a.toInt b.toInt).isLT
  cases compare a.toInt b.toInt <;> rfl

/-- Of less, equal and greater one holds alone, unless the integers differ and are taken as equal
all the same. -/
theorem count_onInts (a b : Int64) :
    [CompareOp.onInts a b (.order .less), CompareOp.onInts a b .equal,
        CompareOp.onInts a b (.order .greater)].count true = 1 ↔ (SameFloat a b → a = b) := by
  have hequal : CompareOp.onInts a b .equal = true ↔ SameFloat a b := Value.equals_ints a b
  have hless := onInts_less a b
  have hgreater := onInts_greater a b
  rw [Int64.lt_iff_toInt_lt] at hless hgreater
  rw [← Int64.toInt_inj]
  generalize CompareOp.onInts a b (.order .less) = less at hless ⊢
  generalize CompareOp.onInts a b .equal = equal at hequal ⊢
  generalize CompareOp.onInts a b (.order .greater) = greater at hgreater ⊢
  have hsame : a.toInt = b.toInt → SameFloat a b := fun h => congrArg ofInt h
  rw [← hequal] at hsame ⊢
  cases less <;> cases equal <;> cases greater <;> simp at hless hgreater hsame ⊢ <;> omega

/-- The comparisons of two integers, whatever their arguments are.  Less and greater are exact, and
each of the six is the negation of another.  Of less, equal and greater exactly one holds unless
the integers differ and have the same float, and none below 2⁵³ in magnitude has the float of
another. -/
theorem eval_compare_ints (lib : Library) {fuel : Nat} {x y : Node} {a b : Int64}
    {m m₁ m₂ : Machine} (hx : eval lib fuel x m = (.done (.int a), m₁))
    (hy : eval lib fuel y m₁ = (.done (.int b), m₂)) :
    ∃ truth : CompareOp → Bool,
      (∀ op operator span, (Operation.compare op).minimum = 2 →
        lib.operations.lookup? operator = some (.compare op) →
        eval lib (fuel + 1) (.form operator [x, y] span) m = (.done (.bool (truth op)), m₂)) ∧
      (truth (.order .less) = true ↔ a < b) ∧
      (truth (.order .greater) = true ↔ b < a) ∧
      truth (.order .atMost) = !truth (.order .greater) ∧
      truth (.order .atLeast) = !truth (.order .less) ∧
      truth .differ = !truth .equal ∧
      ([truth (.order .less), truth .equal, truth (.order .greater)].count true = 1 ↔
        (SameFloat a b → a = b)) ∧
      (a.toInt.natAbs < 2 ^ 53 ∨ b.toInt.natAbs < 2 ^ 53 → SameFloat a b → a = b) := by
  refine ⟨CompareOp.onInts a b, fun op operator span hop hlookup => ?_, onInts_less a b,
    onInts_greater a b, onInts_atMost a b, onInts_atLeast a b, rfl, count_onInts a b, ?_⟩
  · exact eval_compare hop hlookup hx hy span
  · rintro (ha | hb) hfloat
    · exact Int64.toInt_inj.mp (Binary64.ofInt_inj_of_lt ha hfloat)
    · exact Int64.toInt_inj.mp (Binary64.ofInt_inj_of_lt hb hfloat.symm).symm

end

theorem standard_comparisons :
    Library.standard.operations.lookup? "L?" = some (.compare (.order .less)) ∧
    Library.standard.operations.lookup? "EQUAL?" = some (.compare .equal) ∧
    Library.standard.operations.lookup? "G?" = some (.compare (.order .greater)) ∧
    Library.standard.operations.lookup? "MIN" = some (.arithmetic (.extreme .least)) ∧
    Library.standard.operations.lookup? "MAX" = some (.arithmetic (.extreme .greatest)) := by
  decide +kernel

/-- The form of a name and two integers. -/
def formOfInts (operator : String) (a b : Int64) : Node :=
  .form operator [.literal (.int a) default, .literal (.int b) default] default

/-- Of less, equal and greater one holds alone for the last two integers up to 2⁵³. -/
theorem eval_compare_ints_upTo :
    ∃ less equal greater : Bool,
      eval .standard 2 (formOfInts "L?" 9007199254740991 9007199254740992) (.initial .ones) =
        (.done (.bool less), .initial .ones) ∧
      eval .standard 2 (formOfInts "EQUAL?" 9007199254740991 9007199254740992) (.initial .ones) =
        (.done (.bool equal), .initial .ones) ∧
      eval .standard 2 (formOfInts "G?" 9007199254740991 9007199254740992) (.initial .ones) =
        (.done (.bool greater), .initial .ones) ∧
      [less, equal, greater].count true = 1 := by
  have hvalue (n : Int64) : eval .standard 1 (.literal (.int n) default) (.initial .ones) =
      (.done (.int n), .initial .ones) := rfl
  obtain ⟨truth, hruns, -, -, -, -, -, hcount, hfloat⟩ :=
    eval_compare_ints .standard (hvalue 9007199254740991) (hvalue 9007199254740992)
  obtain ⟨hless, hequal, hgreater, -⟩ := standard_comparisons
  exact ⟨truth (.order .less), truth .equal, truth (.order .greater),
    hruns _ "L?" default rfl hless, hruns _ "EQUAL?" default rfl hequal,
    hruns _ "G?" default rfl hgreater, hcount.mpr (hfloat (.inl (by decide)))⟩

/-- The integers 2⁵³ and 2⁵³ + 1 are less and equal at once. -/
theorem compare_neighbours :
    eval .standard 2 (formOfInts "L?" 9007199254740992 9007199254740993) (.initial .ones) =
      (.done (.bool true), .initial .ones) ∧
    eval .standard 2 (formOfInts "EQUAL?" 9007199254740992 9007199254740993) (.initial .ones) =
      (.done (.bool true), .initial .ones) := by
  have hless : CompareOp.onInts 9007199254740992 9007199254740993 (.order .less) = true := by
    decide +kernel
  have hequal : CompareOp.onInts 9007199254740992 9007199254740993 .equal = true := by
    decide +kernel
  constructor
  · rw [← hless]
    exact eval_compare rfl standard_comparisons.1 rfl rfl default
  · rw [← hequal]
    exact eval_compare rfl standard_comparisons.2.1 rfl rfl default

/-! ### The least and the greatest -/

namespace Extreme

/-- The place of an integer in the order that has the best in front. -/
def rank : Extreme → Int64 → Int
  | .least, n => n.toInt
  | .greatest, n => -n.toInt

theorem rank_inj {which : Extreme} {a b : Int64} (h : which.rank a = which.rank b) : a = b := by
  rw [← Int64.toInt_inj]
  cases which <;> simp only [rank] at h <;> omega

/-- A number is preferred when it is better and does not become the same float. -/
theorem prefers_ints (which : Extreme) (best n : Int64) :
    which.prefers (.int best) (.int n) = true ↔
      which.rank n < which.rank best ∧ ¬ SameFloat n best := by
  cases which with
  | least => exact Binary64.lt_ofInt_iff n.toInt best.toInt
  | greatest =>
    refine (Binary64.lt_ofInt_iff best.toInt n.toInt).trans ?_
    simp only [rank]
    rw [ne_comm]
    refine and_congr_left fun _ => ?_
    omega

/-- The integers that share a float are neighbours in either order. -/
theorem sameFloat_of_rank {which : Extreme} {a b c : Int64} (hab : which.rank a ≤ which.rank b)
    (hbc : which.rank b ≤ which.rank c) (h : SameFloat a c) : SameFloat b a := by
  cases which with
  | least => exact (Binary64.ofInt_eq_of_between hab hbc h).symm
  | greatest =>
    simp only [rank] at hab hbc
    have hcb : ofInt c.toInt = ofInt b.toInt :=
      Binary64.ofInt_eq_of_between (by omega) (by omega) h.symm
    exact hcb.symm.trans h.symm

/-- The best of some integers is one of them, and no other is better. -/
structure IsBest (which : Extreme) (best : Int64) (ns : List Int64) : Prop where
  mem : best ∈ ns
  rank_le : ∀ n ∈ ns, which.rank best ≤ which.rank n

namespace IsBest

variable {which : Extreme} {best n : Int64} {ns : List Int64}

theorem unique (h : which.IsBest best ns) (hn : which.IsBest n ns) : best = n :=
  rank_inj (Int.le_antisymm (h.rank_le n hn.mem) (hn.rank_le best h.mem))

theorem perm {ns' : List Int64} (h : which.IsBest best ns) (hperm : ns'.Perm ns) :
    which.IsBest best ns' where
  mem := hperm.mem_iff.mpr h.mem
  rank_le n hn := h.rank_le n (hperm.mem_iff.mp hn)

theorem singleton (which : Extreme) (n : Int64) : which.IsBest n [n] := by
  refine ⟨List.mem_cons_self, fun k hk => ?_⟩
  rw [List.mem_singleton.mp hk]

/-- One that is no better does not change the best. -/
theorem cons (h : which.IsBest best ns) (hn : which.rank best ≤ which.rank n) :
    which.IsBest best (n :: ns) := by
  refine ⟨List.mem_cons_of_mem _ h.mem, fun k hk => ?_⟩
  rcases List.mem_cons.mp hk with rfl | hk
  · exact hn
  · exact h.rank_le k hk

/-- One that is better is the best. -/
theorem cons_better (h : which.IsBest best ns) (hn : which.rank n < which.rank best) :
    which.IsBest n (n :: ns) := by
  refine ⟨List.mem_cons_self, fun k hk => ?_⟩
  rcases List.mem_cons.mp hk with rfl | hk
  · exact Int.le_refl _
  · have hbest := h.rank_le k hk
    omega

end IsBest

/-- `r` is the first of some integers that has the float of the best of them. -/
def Picks (which : Extreme) (ns : List Int64) (r : Int64) : Prop :=
  ∃ best, which.IsBest best ns ∧ ns.find? (SameFloat · best) = some r

section

variable {which : Extreme} {first n r : Int64} {rest : List Int64}

/-- An integer that gives way to the next is never picked. -/
theorem Picks.replace (h : which.Picks (n :: rest) r)
    (hprefers : which.prefers (.int first) (.int n) = true) :
    which.Picks (first :: n :: rest) r := by
  obtain ⟨best, hbest, hfind⟩ := h
  obtain ⟨hrank, hapart⟩ := (which.prefers_ints first n).mp hprefers
  have hn := hbest.rank_le n List.mem_cons_self
  have hfirst : ¬ SameFloat first best := by
    intro heq
    have hbetween := sameFloat_of_rank hn (Int.le_of_lt hrank) heq.symm
    exact hapart (hbetween.trans heq.symm)
  refine ⟨best, hbest.cons (by omega), ?_⟩
  rw [List.find?_cons_of_neg (by simpa using hfirst)]
  exact hfind

/-- An integer that does not replace the first one changes nothing. -/
theorem Picks.keep (h : which.Picks (first :: rest) r)
    (hprefers : ¬ which.prefers (.int first) (.int n) = true) :
    which.Picks (first :: n :: rest) r := by
  obtain ⟨best, hbest, hfind⟩ := h
  have hfirst := hbest.rank_le first List.mem_cons_self
  have hkept : ¬ (which.rank n < which.rank first ∧ ¬ SameFloat n first) :=
    fun h => hprefers ((which.prefers_ints first n).mpr h)
  have hswap : (first :: n :: rest).Perm (n :: first :: rest) := List.Perm.swap n first rest
  by_cases hbetter : which.rank n < which.rank best
  · -- the better one has the float of the first, which is picked in its place
    have hfloat : SameFloat n first := by
      by_contra hne
      exact hkept ⟨by omega, hne⟩
    have hbetween : SameFloat best n := sameFloat_of_rank (Int.le_of_lt hbetter) hfirst hfloat
    have hpicked : SameFloat first best := hfloat.symm.trans hbetween.symm
    rw [List.find?_cons_of_pos (by exact decide_eq_true hpicked)] at hfind
    refine ⟨n, (hbest.cons_better hbetter).perm hswap, ?_⟩
    rw [List.find?_cons_of_pos (by exact decide_eq_true hfloat.symm)]
    exact hfind
  · refine ⟨best, (hbest.cons (Int.not_lt.mp hbetter)).perm hswap, ?_⟩
    by_cases hsame : SameFloat first best
    · rw [List.find?_cons_of_pos (by exact decide_eq_true hsame)] at hfind ⊢
      exact hfind
    · -- were the new one found, the first would lie between it and the best
      have hn : ¬ SameFloat n best := by
        intro heq
        have hworse : which.rank first ≤ which.rank n := by
          by_contra hlt
          exact hkept ⟨by omega, fun h => hsame (h.symm.trans heq)⟩
        exact hsame (sameFloat_of_rank hfirst hworse heq.symm)
      rw [List.find?_cons_of_neg (by simpa using hsame)] at hfind ⊢
      rw [List.find?_cons_of_neg (by simpa using hn)]
      exact hfind

end

/-- Of some integers the first is picked that has the float of the best. -/
theorem pick_ints (which : Extreme) (first : Int64) (rest : List Int64) :
    ∃ r, which.Picks (first :: rest) r ∧ which.pick (.int first) (rest.map .int) = .int r := by
  induction rest generalizing first with
  | nil =>
    refine ⟨first, ⟨first, .singleton which first, ?_⟩, rfl⟩
    exact List.find?_cons_of_pos (decide_eq_true (.refl first))
  | cons n rest ih =>
    have hstep : which.pick (.int first) ((n :: rest).map .int) =
        which.pick (if which.prefers (.int first) (.int n) then .int n else .int first)
          (rest.map .int) := rfl
    rw [hstep]
    by_cases hprefers : which.prefers (.int first) (.int n) = true
    · obtain ⟨r, hpicks, hr⟩ := ih n
      rw [if_pos hprefers]
      exact ⟨r, hpicks.replace hprefers, hr⟩
    · obtain ⟨r, hpicks, hr⟩ := ih first
      rw [if_neg hprefers]
      exact ⟨r, hpicks.keep hprefers, hr⟩

/-- The float of the best leads to the best in every order exactly when no other has it. -/
theorem IsBest.find?_perm_iff {which : Extreme} {best : Int64} {ns : List Int64}
    (h : which.IsBest best ns) :
    (∀ ns' : List Int64, ns'.Perm ns → ns'.find? (SameFloat · best) = some best) ↔
      ∀ n ∈ ns, SameFloat n best → n = best := by
  constructor
  · intro hfind n hn hfloat
    have hfront := hfind (n :: ns.erase n) (List.perm_cons_erase hn).symm
    rw [List.find?_cons_of_pos (by exact decide_eq_true hfloat)] at hfront
    exact Option.some.inj hfront
  · intro halone ns' hperm
    cases hfind : ns'.find? (SameFloat · best) with
    | none =>
      have hnone := List.find?_eq_none.mp hfind best (hperm.mem_iff.mpr h.mem)
      exact absurd (decide_eq_true (SameFloat.refl best)) hnone
    | some r =>
      have hr : SameFloat r best := by simpa using List.find?_some hfind
      rw [halone r (hperm.mem_iff.mp (List.mem_of_find?_eq_some hfind)) hr]

end Extreme

theorem expectNumbers_ints (operation : String) (ns : List Int64) :
    expectNumbers operation (ns.map .int) = .ok (ns.map .int) := by
  induction ns with
  | nil => rfl
  | cons n ns ih =>
    rw [List.map_cons, expectNumbers, ih]
    rfl

section

variable {lib : Library} {fuel : Nat} {operator : String} {which : Extreme} {m m' : Machine}

theorem eval_extreme
    (hlookup : lib.operations.lookup? operator = some (.arithmetic (.extreme which)))
    {args : List Node} {first r : Int64} {rest : List Int64}
    (hargs : evalAll (eval lib fuel) args m = (.done ((first :: rest).map .int), m'))
    (hpick : which.pick (.int first) (rest.map .int) = .int r) (span : Span) :
    eval lib (fuel + 1) (.form operator args span) m = (.done (.int r), m') := by
  have hlength : (Operation.arithmetic (.extreme which)).minimum ≤ args.length := by
    cases args with
    | nil => cases hargs
    | cons node nodes => exact Nat.succ_le_succ (Nat.zero_le _)
  have hextreme : extremeOf which ((first :: rest).map .int) = .ok (.int r) := by
    rw [extremeOf, expectNumbers_ints]
    exact congrArg (fun n : Numeric => Except.ok n.toValue) hpick
  rw [eval_operation hlookup fuel hlength]
  refine (Run.bind_of_done hargs).trans ?_
  rw [hextreme]
  rfl

/-- The least or the greatest of some integers, whatever the arguments are and in whatever order.
The first integer is found that has the float of the right one; this is the right one in every
order exactly when no other has its float, and below 2⁵³ in magnitude none has. -/
theorem eval_extreme_ints
    (hlookup : lib.operations.lookup? operator = some (.arithmetic (.extreme which)))
    (fuel : Nat) {ns : List Int64} (hne : ns ≠ []) :
    ∃ best, which.IsBest best ns ∧
      (∀ (ns' : List Int64) args span m m', ns'.Perm ns →
        evalAll (eval lib fuel) args m = (.done (ns'.map .int), m') →
        ∃ r, ns'.find? (SameFloat · best) = some r ∧
          eval lib (fuel + 1) (.form operator args span) m = (.done (.int r), m')) ∧
      ((∀ ns' : List Int64, ns'.Perm ns → ns'.find? (SameFloat · best) = some best) ↔
        ∀ n ∈ ns, SameFloat n best → n = best) ∧
      (best.toInt.natAbs < 2 ^ 53 → ∀ n ∈ ns, SameFloat n best → n = best) := by
  obtain ⟨first, rest, rfl⟩ := List.exists_cons_of_ne_nil hne
  obtain ⟨-, ⟨best, hbest, -⟩, -⟩ := which.pick_ints first rest
  refine ⟨best, hbest, fun ns' args span m m' hperm hargs => ?_, hbest.find?_perm_iff, ?_⟩
  · cases ns' with
    | nil => exact absurd hperm.symm.eq_nil (List.cons_ne_nil _ _)
    | cons first' rest' =>
      obtain ⟨r, ⟨best', hbest', hfind⟩, hpick⟩ := which.pick_ints first' rest'
      have heq : best' = best := hbest'.unique (hbest.perm hperm)
      rw [heq] at hfind
      exact ⟨r, hfind, eval_extreme hlookup hargs hpick span⟩
  · intro hsmall n _ hfloat
    exact (Int64.toInt_inj.mp (Binary64.ofInt_inj_of_lt hsmall hfloat.symm)).symm

end

/-- The greatest of three integers is found in either order. -/
theorem eval_extreme_ints_three :
    let literals (ns : List Int64) : List Node := ns.map fun n => .literal (.int n) default
    eval .standard 2 (.form "MAX" (literals [4, -2, 9]) default) (.initial .ones) =
      (.done (.int 9), .initial .ones) ∧
    eval .standard 2 (.form "MAX" (literals [9, 4, -2]) default) (.initial .ones) =
      (.done (.int 9), .initial .ones) := by
  intro literals
  obtain ⟨-, -, -, -, hgreatest⟩ := standard_comparisons
  have hne : [4, -2, (9 : Int64)] ≠ [] := List.cons_ne_nil _ _
  obtain ⟨best, hbest, hruns, hright, hsmall⟩ := eval_extreme_ints hgreatest 1 hne
  have hgreater : ∀ n ∈ [4, -2, (9 : Int64)],
      Extreme.greatest.rank 9 ≤ Extreme.greatest.rank n := by
    rw [List.forall_mem_cons, List.forall_mem_cons, List.forall_mem_singleton]
    decide
  have hnine : best = 9 := hbest.unique ⟨by decide, hgreater⟩
  subst hnine
  have hfind := hright.mpr (hsmall (by decide))
  have hevery (ns : List Int64) (hperm : ns.Perm [4, -2, 9])
      (hargs : evalAll (eval .standard 1) (literals ns) (.initial .ones) =
        (.done (ns.map .int), .initial .ones)) :
      eval .standard 2 (.form "MAX" (literals ns) default) (.initial .ones) =
        (.done (.int 9), .initial .ones) := by
    obtain ⟨r, hr, heval⟩ := hruns ns (literals ns) default (.initial .ones) _ hperm hargs
    rw [hfind ns hperm] at hr
    cases hr
    exact heval
  exact ⟨hevery [4, -2, 9] (.refl _) rfl, hevery [9, 4, -2] (by decide) rfl⟩

/-- Of 2⁵³ and 2⁵³ + 1 the first is taken for the greatest, and also for the least. -/
theorem extreme_neighbours :
    eval .standard 2 (formOfInts "MAX" 9007199254740992 9007199254740993) (.initial .ones) =
      (.done (.int 9007199254740992), .initial .ones) ∧
    eval .standard 2 (formOfInts "MIN" 9007199254740993 9007199254740992) (.initial .ones) =
      (.done (.int 9007199254740993), .initial .ones) := by
  have hgreatest : Extreme.greatest.pick (.int 9007199254740992)
      ([9007199254740993].map .int) = .int 9007199254740992 := by
    decide +kernel
  have hleast : Extreme.least.pick (.int 9007199254740993)
      ([9007199254740992].map .int) = .int 9007199254740993 := by
    decide +kernel
  obtain ⟨-, -, -, hmin, hmax⟩ := standard_comparisons
  exact ⟨eval_extreme hmax rfl hgreatest default, eval_extreme hmin rfl hleast default⟩

end TextAdventure
