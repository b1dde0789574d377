import TextAdventure.Proofs.Command.Reference
import TextAdventure.Proofs.Play.Naming
import TextAdventure.Proofs.Program.Extent
import TextAdventure.Proofs.Program.Fuel

/-!
The literals that stand for values.

A `%` form in a routine is replaced by a literal of what it is worth when the routine is defined.
Most values have a literal that can mean nothing else; but an object or a routine is written as its
name, and the name is looked up anew whenever the literal is evaluated.

* `Value.readBack` — what a literal of a value comes to where names refer as given;
* `eval_nodeOfValue` — evaluating a literal comes to this, and changes nothing;
* `Value.references`, `Value.same_readBack` — it is the value itself when the names in the literal
  refer to what they stand for there;
* `eval_literal` — and this is so when nothing else is found sooner under these names;
* `call_captured_literal` — a parameter with the name of an object is found sooner.
-/

namespace TextAdventure

/-! ### Names in a literal -/

mutual

/-- The names in a literal of a value, and what each of them stands for there. -/
def Value.references (w : World) : Value → List (String × Value)
  | .object o => [(w.objectName o, .object o)]
  | .routine name => [(name, .routine name)]
  | .list items => Value.referencesAll w items
  | _ => []

/-- The names in literals of some values. -/
def Value.referencesAll (w : World) : List Value → List (String × Value)
  | [] => []
  | value :: values => value.references w ++ Value.referencesAll w values

end

mutual

/-- What a literal of a value comes to where names refer as given.  The name of an atom comes back
in canonical spelling. -/
def Value.readBack (w : World) (refer : String → Value) : Value → Value
  | .object o => refer (w.objectName o)
  | .routine name => refer name
  | .atom name => .ofName name
  | .list items => .list (Value.readBackAll w refer items)
  | value => value

/-- What literals of some values come to. -/
def Value.readBackAll (w : World) (refer : String → Value) : List Value → List Value
  | [] => []
  | value :: values => value.readBack w refer :: Value.readBackAll w refer values

end

mutual

/-- A literal comes to its value when the names in it refer to what they stand for. -/
theorem Value.same_readBack (w : World) (refer : String → Value) :
    ∀ v : Value, (v.readBack w refer).same v = true ↔
      ∀ ref ∈ v.references w, (refer ref.1).same ref.2 = true
  | .object o => by rw [Value.readBack, Value.references, List.forall_mem_singleton]
  | .routine name => by rw [Value.readBack, Value.references, List.forall_mem_singleton]
  | .list items => by
    rw [Value.readBack, Value.references, Value.same]
    exact Value.sameAll_readBackAll w refer items
  | .atom name => by
    simp [Value.readBack, Value.references, Value.ofName, Value.same, sameLetters_iff,
      canonical_canonical]
  | .bool _ | .int _ | .float _ | .string _ | .char _ | .table _ => by
    simp [Value.readBack, Value.references, Value.same]

theorem Value.sameAll_readBackAll (w : World) (refer : String → Value) :
    ∀ values : List Value,
      Value.sameAll (Value.readBackAll w refer values) values = true ↔
        ∀ ref ∈ Value.referencesAll w values, (refer ref.1).same ref.2 = true
  | [] => ⟨fun _ _ h => (nomatch h), fun _ => rfl⟩
  | value :: values => by
    rw [Value.readBackAll, Value.referencesAll, Value.sameAll, Bool.and_eq_true,
      Value.same_readBack w refer value, Value.sameAll_readBackAll w refer values,
      List.forall_mem_append]

end

/-! ### Evaluating a literal -/

theorem Attempt.bind_eq_ok {α β : Type} {e : Except Fault α} {next : α → Except Fault β} {b : β}
    (h : e >>= next = .ok b) : ∃ a, e = .ok a ∧ next a = .ok b := by
  cases e with
  | error fault => cases h
  | ok a => exact ⟨a, rfl, h⟩

/-- A literal is never a splice. -/
theorem spliceValue_literal {w : World} {span : Span} {v : Value} {n : Node}
    (hn : nodeOfValue w span v = .ok n) (value : Value) (rest : List Value) :
    spliceValue n value rest = value :: rest := by
  cases v with
  | bool b => cases b <;> cases hn <;> rfl
  | list items =>
    obtain ⟨ns, -, heq⟩ := Attempt.bind_eq_ok hn
    cases heq
    rfl
  | table t => cases hn
  | _ => cases hn; rfl

theorem eval_reference {lib : Library} {m : Machine} {name : String} {u : Value}
    (h : resolve lib m.world m.frame name = .ok u) (fuel : Nat) (sigil : Sigil) (span : Span) :
    eval lib (fuel + 1) (.reference sigil name span) m = (.done u, m) := by
  show Run.ofExcept (resolve lib m.world m.frame name) m = _
  rw [h]
  rfl

mutual

/-- Evaluating a literal looks up the names in it and changes nothing. -/
theorem eval_nodeOfValue {lib : Library} {m : Machine} {w : World} {span : Span}
    {refer : String → Value} :
    ∀ {v : Value} {n : Node}, nodeOfValue w span v = .ok n →
      (∀ ref ∈ v.references w, resolve lib m.world m.frame ref.1 = .ok (refer ref.1)) →
      ∀ {fuel : Nat}, n.height < fuel → eval lib fuel n m = (.done (v.readBack w refer), m)
  | .object o, n, hn, hrefer, fuel + 1, _ => by
    cases hn
    exact eval_reference (hrefer _ List.mem_cons_self) fuel .comma span
  | .routine name, n, hn, hrefer, fuel + 1, _ => by
    cases hn
    exact eval_reference (hrefer _ List.mem_cons_self) fuel .comma span
  | .list items, n, hn, hrefer, fuel + 1, hfuel => by
    obtain ⟨ns, hns, heq⟩ := Attempt.bind_eq_ok hn
    cases heq
    have hheight : Node.heightAll ns < fuel := Nat.lt_of_succ_lt_succ hfuel
    exact Run.bind_of_done (evalAll_nodesOfValues hns hrefer hheight)
  | .bool true, n, hn, _, fuel + 1, _ | .bool false, n, hn, _, fuel + 1, _
  | .int _, n, hn, _, fuel + 1, _ | .float _, n, hn, _, fuel + 1, _
  | .string _, n, hn, _, fuel + 1, _ | .char _, n, hn, _, fuel + 1, _
  | .atom _, n, hn, _, fuel + 1, _ => by
    cases hn
    rfl

/-- Evaluating literals in a row does the same for each of them. -/
theorem evalAll_nodesOfValues {lib : Library} {m : Machine} {w : World} {span : Span}
    {refer : String → Value} :
    ∀ {values : List Value} {ns : List Node}, nodesOfValues w span values = .ok ns →
      (∀ ref ∈ Value.referencesAll w values,
        resolve lib m.world m.frame ref.1 = .ok (refer ref.1)) →
      ∀ {fuel : Nat}, Node.heightAll ns < fuel →
        evalAll (eval lib fuel) ns m = (.done (Value.readBackAll w refer values), m)
  | [], ns, hn, _, fuel, _ => by
    cases hn
    rfl
  | value :: values, ns, hn, hrefer, fuel, hfuel => by
    obtain ⟨first, hfirst, hn⟩ := Attempt.bind_eq_ok hn
    obtain ⟨rest, hrest, heq⟩ := Attempt.bind_eq_ok hn
    cases heq
    obtain ⟨hreferFirst, hreferRest⟩ := List.forall_mem_append.mp hrefer
    have hvalue := eval_nodeOfValue hfirst hreferFirst
      (Nat.lt_of_le_of_lt (Nat.le_max_left _ _) hfuel)
    have hvalues := evalAll_nodesOfValues hrest hreferRest
      (Nat.lt_of_le_of_lt (Nat.le_max_right _ _) hfuel)
    refine (Run.bind_of_done hvalue).trans ((Run.bind_of_done hvalues).trans ?_)
    rw [spliceValue_literal hfirst]
    rfl

end

/-! ### What is found sooner under a name -/

namespace Machine

/-- The variable of some name, or else the global. -/
def bound? (m : Machine) (name : String) : Option Value :=
  (m.frame.get? name).or (m.world.global? name)

/-- The flag of some name, or else the property behind `P?`. -/
def atom? (m : Machine) (name : String) : Option Value :=
  if m.world.flags.contains name then some (.ofName name)
  else ((propertyReference? (canonical name)).filter m.world.isPropertyName).map .ofName

/-- What is found under a name sooner than a value: variables and globals come before objects, and
objects, flags and properties before routines. -/
def sooner? (m : Machine) (name : String) : Value → Option Value
  | .object _ => m.bound? name
  | _ => ((m.bound? name).or ((m.world.lookup? name).map .object)).or (m.atom? name)

/-- Nothing but a given value is found sooner under a name. -/
def Keeps (m : Machine) (name : String) (v : Value) : Prop :=
  ∀ u, m.sooner? name v = some u → u.same v = true

/-- What a name refers to, false when it refers to nothing. -/
def refer (m : Machine) (lib : Library) (name : String) : Value :=
  match resolve lib m.world m.frame name with
  | .ok u => u
  | .error _ => .bool false

section

variable {lib : Library} {m : Machine} {name : String}

theorem resolve_object {o : ObjectId} (h : m.world.lookup? name = some o) :
    resolve lib m.world m.frame name = .ok ((m.sooner? name (.object o)).getD (.object o)) := by
  rw [resolve, sooner?, bound?, h]
  cases m.frame.get? name with
  | some u => rfl
  | none => cases m.world.global? name <;> rfl

theorem resolve_routine (h : (lib.routines.lookup? name).isSome = true) :
    resolve lib m.world m.frame name =
      .ok ((m.sooner? name (.routine name)).getD (.routine (canonical name))) := by
  have hsooner : m.sooner? name (.routine name) =
      ((m.bound? name).or ((m.world.lookup? name).map .object)).or (m.atom? name) := rfl
  rw [resolve, hsooner, bound?, atom?, if_pos h]
  -- the search ends at the first of these that there is, and goes on to routines when there is none
  cases m.frame.get? name with
  | some u => rfl
  | none =>
  cases m.world.global? name with
  | some u => rfl
  | none =>
  cases m.world.lookup? name with
  | some o => rfl
  | none =>
  by_cases hflag : m.world.flags.contains name = true
  · simp only [if_pos hflag]
    rfl
  · simp only [if_neg hflag]
    cases (propertyReference? (canonical name)).filter m.world.isPropertyName <;> rfl

/-- A name that is found at the latest under a value is taken for it when nothing else is found
sooner. -/
theorem same_getD_sooner? {v found : Value} (h : found.same v = true) :
    ((m.sooner? name v).getD found).same v = true ↔ m.Keeps name v := by
  rw [Keeps]
  cases m.sooner? name v with
  | none => exact ⟨fun _ _ h => (nomatch h), fun _ => h⟩
  | some u =>
    refine ⟨fun hu u' heq => ?_, fun hkeeps => hkeeps u rfl⟩
    cases heq
    exact hu

end

end Machine

mutual

/-- The names in a literal are those of objects and routines. -/
theorem Value.of_mem_references {w : World} {ref : String × Value} :
    ∀ {v : Value}, v.InRange w.extent → ref ∈ v.references w →
      (∃ o, w.Has o ∧ ref = (w.objectName o, .object o)) ∨ ∃ name, ref = (name, .routine name)
  | .object o, hv, href => .inl ⟨o, hv, List.mem_singleton.mp href⟩
  | .routine name, _, href => .inr ⟨name, List.mem_singleton.mp href⟩
  | .list _, hv, href => Value.of_mem_referencesAll hv href

theorem Value.of_mem_referencesAll {w : World} {ref : String × Value} :
    ∀ {values : List Value}, Value.InRangeAll w.extent values →
      ref ∈ Value.referencesAll w values →
      (∃ o, w.Has o ∧ ref = (w.objectName o, .object o)) ∨ ∃ name, ref = (name, .routine name)
  | _ :: _, hv, href => by
    rcases List.mem_append.mp href with href | href
    · exact Value.of_mem_references hv.1 href
    · exact Value.of_mem_referencesAll hv.2 href

end

/-- Later on the names in a literal still refer to something, and to what they stand for there
when nothing else is found sooner. -/
theorem refer_of_mem_references {w : World} (hw : w.WellNamed) {v : Value}
    (hv : v.InRange w.extent) {lib : Library} {m : Machine} (hlater : w.Evolves m.world)
    (hroutines : ∀ name, (name, .routine name) ∈ v.references w →
      (lib.routines.lookup? name).isSome = true) {ref : String × Value}
    (href : ref ∈ v.references w) :
    resolve lib m.world m.frame ref.1 = .ok (m.refer lib ref.1) ∧
      ((m.refer lib ref.1).same ref.2 = true ↔ m.Keeps ref.1 ref.2) := by
  -- the name is found at the latest as the object or the routine itself
  obtain ⟨found, hfound, hresolve⟩ : ∃ found : Value, found.same ref.2 = true ∧
      resolve lib m.world m.frame ref.1 = .ok ((m.sooner? ref.1 ref.2).getD found) := by
    obtain ⟨o, ho, rfl⟩ | ⟨name, rfl⟩ := Value.of_mem_references hv href
    · refine ⟨.object o, ?_, Machine.resolve_object (hlater.lookup?_eq (hw.lookup?_objectName ho))⟩
      rw [Value.same, beq_self_eq_true]
    · refine ⟨.routine (canonical name), ?_, Machine.resolve_routine (hroutines name href)⟩
      rw [Value.same, sameLetters_iff, canonical_canonical]
  rw [Machine.refer, hresolve]
  exact ⟨rfl, Machine.same_getD_sooner? hfound⟩

/-- A literal of a value takes the place of a `%` form that is worth it.  Evaluated in any later
world and in any frame, it comes to some value and changes nothing; and this is the same value
exactly when, under each name of an object or a routine in it, nothing else is found sooner. -/
theorem eval_literal {w : World} (hw : w.Reachable) {span : Span} {v : Value} {n : Node}
    (hn : nodeOfValue w span v = .ok n) (hv : v.InRange w.extent) :
    (∀ lib fuel body m m', constantValue lib fuel body m = (.done v, m') → m'.world = w →
      preEvaluate lib fuel (.marked .percent body span) m = (.done n, m')) ∧
    ∀ lib m, w.Evolves m.world →
      (∀ name, (name, .routine name) ∈ v.references w →
        (lib.routines.lookup? name).isSome = true) →
      ∃ r, (∀ fuel, n.height < fuel → eval lib fuel n m = (.done r, m)) ∧
        (r.same v = true ↔ ∀ ref ∈ v.references w, m.Keeps ref.1 ref.2) := by
  constructor
  · intro lib fuel body m m' hvalue hworld
    rw [preEvaluate]
    refine (Run.bind_of_done hvalue).trans ?_
    subst hworld
    show Run.ofExcept (nodeOfValue m'.world span v) m' = _
    rw [hn]
    rfl
  · intro lib m hlater hroutines
    have hrefer := fun ref (href : ref ∈ v.references w) =>
      refer_of_mem_references hw.wellNamed hv hlater hroutines href
    refine ⟨v.readBack w (m.refer lib), fun fuel hfuel => ?_, ?_⟩
    · exact eval_nodeOfValue hn (fun ref href => (hrefer ref href).1) hfuel
    · rw [Value.same_readBack]
      exact forall₂_congr fun ref href => (hrefer ref href).2

/-- The world with a lamp and nothing else. -/
def lampWorld : World :=
  match World.empty.register (.named "LAMP") with
  | .ok (w, _) => w
  | .error _ => .empty

theorem reachable_lampWorld : lampWorld.Reachable := by
  have hregister : World.empty.register (.named "LAMP") = .ok (lampWorld, ⟨0⟩) := rfl
  exact .change .empty (.register hregister)

/-- A lamp and a routine with a literal that comes to them, where their names are free. -/
theorem eval_literal_lamp :
    let lib : Library :=
      { Library.standard with routines := .define .empty ⟨"SHOW", [], [], []⟩ }
    let m : Machine := { Machine.initial .ones with world := lampWorld }
    let v : Value := .list [.object ⟨0⟩, .routine "SHOW"]
    ∃ n, nodeOfValue lampWorld default v = .ok n ∧
      ∃ r, eval lib 2 n m = (.done r, m) ∧ r.same v = true := by
  intro lib m v
  have hrange : v.InRange lampWorld.extent := by
    refine ⟨?_, trivial, trivial⟩
    exact Nat.zero_lt_one
  have hnames : v.references lampWorld = [("LAMP", .object ⟨0⟩), ("SHOW", .routine "SHOW")] := rfl
  obtain ⟨n, hn⟩ : ∃ n, nodeOfValue lampWorld default v = .ok n := ⟨_, rfl⟩
  have hroutines : ∀ name, (name, .routine name) ∈ v.references lampWorld →
      (lib.routines.lookup? name).isSome = true := by
    rw [hnames]
    rintro name (_ | ⟨_, _ | ⟨_, ⟨⟩⟩⟩)
    rfl
  have hkeeps : ∀ ref ∈ v.references lampWorld, m.Keeps ref.1 ref.2 := by
    have hlamp : m.sooner? "LAMP" (.object ⟨0⟩) = none := rfl
    have hshow : m.sooner? "SHOW" (.routine "SHOW") = none := rfl
    rw [hnames, List.forall_mem_cons, List.forall_mem_singleton]
    exact ⟨fun u hu => (nomatch hlamp.symm.trans hu), fun u hu => nomatch hshow.symm.trans hu⟩
  obtain ⟨-, hlater⟩ := eval_literal reachable_lampWorld hn hrange
  obtain ⟨r, hruns, hsame⟩ := hlater lib m (.refl _) hroutines
  refine ⟨n, hn, r, hruns 2 ?_, hsame.mpr hkeeps⟩
  cases hn
  decide

/-- A lamp, and a routine that has a parameter of its name and a `%` form worth the lamp. -/
def capturedLamp : List Node :=
  [declaredWords "OBJECT" ["LAMP"],
    .form "ROUTINE" [.atom "SHOW" default, .list [.atom "LAMP" default] default,
      .marked .percent (.reference .comma "LAMP" default) default] default]

/-- The form is worth the lamp when the routine is defined, but the routine gives back its
argument. -/
theorem call_captured_literal :
    ∃ g : Game, load .standard 9 capturedLamp = .done g ∧
      (constantValue g.library 9 (.reference .comma "LAMP" default) g.machine).1 =
        .done (.object ⟨0⟩) ∧
      (call g.library 9 "SHOW" [.int 7] g.machine).1 = .done (.int 7) := by
  have hpasses : (load .standard 9 capturedLamp).passes (fun g =>
      (constantValue g.library 9 (.reference .comma "LAMP" default) g.machine).1.passes
        (·.object? == some ⟨0⟩) &&
      (call g.library 9 "SHOW" [.int 7] g.machine).1.passes (·.int? == some 7)) = true := by
    decide +kernel
  obtain ⟨g, hload, htest⟩ := Outcome.exists_of_passes hpasses
  obtain ⟨hform, hcall⟩ := Bool.and_eq_true_iff.mp htest
  obtain ⟨lamp, hlamp, hobject⟩ := Outcome.exists_of_passes hform
  obtain ⟨seven, hseven, hint⟩ := Outcome.exists_of_passes hcall
  refine ⟨g, hload, ?_, ?_⟩
  · rw [hlamp, Value.eq_object_of_object? (eq_of_beq hobject)]
  · cases seven <;> cases eq_of_beq hint
    exact hseven

end TextAdventure
