import TextAdventure.Proofs.Program.Pairing

/-!
Signals and failures on their way out.

While a form is worked on, nodes in it are evaluated one after another, and perhaps a routine is
called; what is done next depends on the values that came back.  Nothing in between looks at a
signal or a failure: the first one ends the work.

* `Course` — what an action asks for, one request after another, with the evaluation of nodes left
  open;
* `Course.requests` — the requests made on the way, and the machine at each of them;
* `Course.run_of_stopped` — a request that ends without a value is the last one, and its end is
  that of the course;
* `evalStep_propagates` — the work on every node follows a course.

Design notes.  A course is found for a node and a machine, before it is known how nodes are
evaluated.  It is then the same for every way of evaluating them, so an operation that let a signal
pass, or that evaluated another node after one, would follow none.
-/

namespace TextAdventure

/-! ### Courses -/

/-- What an action may ask for: the value of a node, or a call of what a value names. -/
inductive Request where
  | evaluate (node : Node)
  | call (callee : Value) (args : List Value)

def Request.run (lib : Library) (ev : Node → Run Value) : Request → Run Value
  | .evaluate node => ev node
  | .call callee args => callValue lib ev callee args

/-- What an action does from some machine on: it ends, or it makes a request and goes on with the
value and the machine that come back. -/
inductive Course (α : Type) where
  | ends (outcome : Outcome α) (m : Machine)
  | asks (request : Request) (m : Machine) (next : Value → Machine → Course α)

namespace Course

variable {α β : Type}

/-- How a course ends. -/
def run (lib : Library) (ev : Node → Run Value) : Course α → Outcome α × Machine
  | .ends outcome m => (outcome, m)
  | .asks request m next =>
    match request.run lib ev m with
    | (.done value, m) => (next value m).run lib ev
    | (.signal s, m) => (.signal s, m)
    | (.failed f, m) => (.failed f, m)
    | (.exhausted what, m) => (.exhausted what, m)

/-- The requests of a course, with the machine from which each of them is made. -/
def requests (lib : Library) (ev : Node → Run Value) : Course α → List (Request × Machine)
  | .ends _ _ => []
  | .asks request m next =>
    (request, m) ::
      match request.run lib ev m with
      | (.done value, m) => (next value m).requests lib ev
      | _ => []

/-- Whatever value a course ends with has a property. -/
inductive Yields (P : α → Prop) : Course α → Prop
  | ends {outcome : Outcome α} (h : ∀ a, outcome = .done a → P a) (m : Machine) :
      Yields P (.ends outcome m)
  | asks (request : Request) (m : Machine) {next : Value → Machine → Course α}
      (h : ∀ value m, Yields P (next value m)) : Yields P (.asks request m next)

/-- A request that ends without a value is the last one, and its end is that of the course. -/
theorem run_of_stopped {lib : Library} {ev : Node → Run Value} {c : Course Value}
    {before after : List (Request × Machine)} {request : Request} {m : Machine}
    (h : c.requests lib ev = before ++ (request, m) :: after)
    (hstop : ∀ value, (request.run lib ev m).1 ≠ .done value) :
    after = [] ∧ c.run lib ev = request.run lib ev m := by
  induction c generalizing before with
  | ends outcome m₁ => simp [requests] at h
  | asks first m₁ next ih =>
    rw [requests] at h
    rw [run]
    obtain _ | ⟨asked, before⟩ := before
    · -- the first request is the one that stops
      obtain ⟨hsame, hafter⟩ := List.cons.inj h
      obtain ⟨rfl, rfl⟩ := Prod.mk.inj hsame
      rcases hm : first.run lib ev m₁ with ⟨value | s | f | _, m₂⟩
      all_goals rw [hm] at hafter hstop
      · exact absurd rfl (hstop value)
      · exact ⟨hafter.symm, rfl⟩
      · exact ⟨hafter.symm, rfl⟩
      · exact ⟨hafter.symm, rfl⟩
    · -- a later one can only stop if the first had a value
      obtain ⟨-, hrest⟩ := List.cons.inj h
      rcases hm : first.run lib ev m₁ with ⟨value | s | f | _, m₂⟩
      all_goals rw [hm] at hrest
      · exact ih value m₂ hrest
      · simp at hrest
      · simp at hrest
      · simp at hrest

/-- A course depends on its requests only. -/
theorem run_congr {lib : Library} {ev ev' : Node → Run Value} {c : Course α}
    (h : ∀ asked ∈ c.requests lib ev, asked.1.run lib ev asked.2 = asked.1.run lib ev' asked.2) :
    c.run lib ev = c.run lib ev' := by
  induction c with
  | ends outcome m => rfl
  | asks request m next ih =>
    rw [requests] at h
    have hfirst : request.run lib ev m = request.run lib ev' m := h _ List.mem_cons_self
    rw [run, run, ← hfirst]
    rcases hm : request.run lib ev m with ⟨value | s | f | _, m'⟩
    · rw [hm] at h
      exact ih value m' fun asked hasked => h asked (List.mem_cons_of_mem _ hasked)
    · rfl
    · rfl
    · rfl

end Course

/-- From a machine an action follows a course: however nodes are evaluated, it ends as the course
does.  The values that it can yield have a property. -/
def Scheme.HasCourse {α : Type} (lib : Library) (P : α → Prop) (F : Scheme α) (m : Machine) : Prop :=
  ∃ c : Course α, (∀ ev, F ev m = c.run lib ev) ∧ c.Yields P

namespace Scheme.HasCourse

variable {α β : Type} {lib : Library} {P : α → Prop} {Q : β → Prop}

/-- An action that evaluates nothing ends at once. -/
theorem fixed {act : Run α} {m : Machine} (h : ∀ a, (act m).1 = .done a → P a) :
    Scheme.HasCourse lib P (fun _ => act) m :=
  ⟨.ends (act m).1 (act m).2, fun _ => rfl, .ends h _⟩

theorem request {P : Value → Prop} (h : ∀ value, P value) (request : Request) (m : Machine) :
    Scheme.HasCourse lib P (fun ev => request.run lib ev) m := by
  refine ⟨.asks request m fun value m => .ends (.done value) m, fun ev => ?_,
    .asks _ m fun _ m => .ends (fun a _ => h a) m⟩
  show request.run lib ev m = _
  rw [Course.run]
  rcases request.run lib ev m with ⟨value | s | f | _, m'⟩
  · rfl
  · rfl
  · rfl
  · rfl

theorem bind {F : Scheme α} {m : Machine} (hF : Scheme.HasCourse lib P F m) {next : α → Scheme β}
    (hnext : ∀ a, P a → ∀ m, Scheme.HasCourse lib Q (next a) m) :
    Scheme.HasCourse lib Q (fun ev => F ev >>= fun a => next a ev) m := by
  obtain ⟨c, hruns, hyields⟩ := hF
  induction hyields generalizing F m with
  | @ends outcome ha m₁ =>
    rcases outcome with a | s | f | _
    · obtain ⟨c, hsame, hvalues⟩ := hnext a (ha a rfl) m₁
      exact ⟨c, fun ev => (Run.bind_of_done (hruns ev)).trans (hsame ev), hvalues⟩
    · exact ⟨_, fun ev => Run.bind_of_signal (hruns ev), .ends nofun m₁⟩
    · exact ⟨_, fun ev => Run.bind_of_failed (hruns ev), .ends nofun m₁⟩
    · exact ⟨_, fun ev => Run.bind_of_exhausted (hruns ev), .ends nofun m₁⟩
  | @asks request m₁ after hafter ih =>
    -- the rest of the course is an action of its own, one for each value that may come back
    have hrest (value : Value) (m₂ : Machine) :=
      @ih value m₂ (fun ev _ => (after value m₂).run lib ev) m₂ fun _ => rfl
    choose rest hsame hvalues using hrest
    refine ⟨.asks request m₁ rest, fun ev => ?_, .asks request m₁ hvalues⟩
    have hfirst := hruns ev
    rw [Course.run] at hfirst ⊢
    rcases hm : request.run lib ev m₁ with ⟨value | s | f | _, m₂⟩
    all_goals rw [hm] at hfirst
    · exact (Run.bind_congr hfirst _).trans (hsame value m₂ ev)
    · exact Run.bind_of_signal hfirst
    · exact Run.bind_of_failed hfirst
    · exact Run.bind_of_exhausted hfirst

end Scheme.HasCourse

/-! ### Every node has a course -/

/-- The statement that an action follows a course from every machine. -/
def coursePairing (lib : Library) : Pairing where
  Holds V F _ := ∀ m, Scheme.HasCourse lib (fun a => ∃ b, V a b) F m

theorem course_logic (lib : Library) : PairLogic (coursePairing lib) Eq Eq lib lib where
  canonical h := congrArg canonical h
  library := .refl (fun _ => rfl) (fun _ => rfl) lib
  pure h m := .fixed fun a ha => by cases ha; exact ⟨_, h⟩
  bind hfirst hnext m := .bind (hfirst m) fun a ⟨b, hab⟩ => hnext a b hab
  fail fault m := .fixed nofun
  raise s m := .fixed nofun
  exhaust _ m := .fixed nofun
  evaluate {node _} _ m := .request (fun value => ⟨value, rfl⟩) (.evaluate node) m
  call callee args m := .request (fun value => ⟨value, rfl⟩) (.call callee args) m
  read h m := .fixed fun a ha => by cases ha; exact ⟨_, h m m.world (.refl _)⟩
  print _ m := .fixed fun a _ => ⟨a, rfl⟩
  random _ m := .fixed fun a _ => ⟨a, rfl⟩
  quit m := .fixed fun a _ => ⟨a, rfl⟩
  modifyFrame _ m := .fixed fun a _ => ⟨a, rfl⟩
  setGlobal _ _ m := .fixed fun a _ => ⟨a, rfl⟩
  makeTable _ m := .fixed fun a _ => ⟨a, rfl⟩
  changeWorld _ m := .fixed fun a _ => ⟨a, rfl⟩

/-- What a block makes of the end of what it runs: a signal that leaves it becomes its value, and
its scope is closed. -/
def closeBlock (ended : Outcome Value × Machine) : Outcome Value × Machine :=
  (ended.1.leftBlock, { ended.2 with frame := ended.2.frame.closeBlock })

theorem Run.withinBlock_eq (act : Run Value) (m : Machine) :
    act.withinBlock m = closeBlock (act { m with frame := m.frame.openBlock }) :=
  Prod.ext (Run.fst_withinBlock act m) (Run.snd_withinBlock act m)

/-- A course accounts for an action, from a machine and up to what the action makes of its end.
The action ends as the course does; it depends on the requests of the course only; and a request
that ends without a value is the last one, and ends the action. -/
structure Course.Explains (c : Course Value) (lib : Library) (F : Scheme Value) (m : Machine)
    (close : Outcome Value × Machine → Outcome Value × Machine) : Prop where
  ends (ev : Node → Run Value) : F ev m = close (c.run lib ev)
  only {ev ev' : Node → Run Value}
    (h : ∀ asked ∈ c.requests lib ev,
      asked.1.run lib ev asked.2 = asked.1.run lib ev' asked.2) : F ev m = F ev' m
  stops {ev : Node → Run Value} {before after : List (Request × Machine)} {request : Request}
    {m₁ : Machine} (h : c.requests lib ev = before ++ (request, m₁) :: after)
    (hstop : ∀ value, (request.run lib ev m₁).1 ≠ .done value) :
    after = [] ∧ F ev m = close (request.run lib ev m₁)

theorem Course.explains {c : Course Value} {lib : Library} {F : Scheme Value} {m : Machine}
    {close : Outcome Value × Machine → Outcome Value × Machine}
    (h : ∀ ev, F ev m = close (c.run lib ev)) : c.Explains lib F m close where
  ends := h
  only hsame := by rw [h, h, Course.run_congr hsame]
  stops hasked hstop := by
    obtain ⟨hlast, hends⟩ := Course.run_of_stopped hasked hstop
    exact ⟨hlast, by rw [h, hends]⟩

/-- Signals and failures propagate unchanged.  For every node and machine there is a course that,
however nodes are evaluated, accounts for the work on the node.  So the first node or call in it
that ends in a signal or a failure ends the work, and the machine is left as it is then.  A block
does the same but for closing its scope and taking the signal that leaves it. -/
theorem evalStep_propagates (lib : Library) (fuel : Nat) (node : Node) (m : Machine) :
    (¬ lib.IsBlock node →
      ∃ c : Course Value, c.Explains lib (fun ev => evalStep lib fuel ev node) m id) ∧
    (lib.IsBlock node →
      ∃ c : Course Value, c.Explains lib (fun ev => evalStep lib fuel ev node) m closeBlock) := by
  have hnode := Node.Like.refl (fun _ => rfl) (fun _ => rfl) node
  constructor
  · intro hblock
    obtain ⟨c, hruns, -⟩ := (course_logic lib).evalStep hnode hblock fuel m
    exact ⟨c, Course.explains hruns⟩
  · intro hblock
    cases node with
    | form operator args s =>
      obtain ⟨op, hlookup, hop⟩ := hblock
      have hargs := Node.Like.allRefl (fun _ => rfl) (fun _ => rfl) args
      obtain ⟨c, hruns, -⟩ :=
        (course_logic lib).inside op fuel hargs { m with frame := m.frame.openBlock }
      refine ⟨c, Course.explains fun ev => ?_⟩
      show evalStep lib fuel ev (.form operator args s) m = _
      rw [evalStep_block hlookup hop, Run.withinBlock_eq]
      exact congrArg closeBlock (hruns ev)
    | _ => exact absurd hblock id

/-- A sum ends with the signal of its second argument and prints nothing; a loop takes the signal
that leaves it. -/
theorem evalStep_propagates_sum :
    let sum : Node := .form "+" [.literal (.int 1) default, .form "RTRUE" [] default,
      .form "TELL" [.literal (.string "x") default] default] default
    let loop : Node := .form "REPEAT" [.form "RETURN" [.literal (.int 5) default] default] default
    (∃ c : Course Value,
      c.Explains .standard (fun ev => evalStep .standard 2 ev sum) (.initial .ones) id) ∧
    eval .standard 3 sum (.initial .ones) = (.signal .returnTrue, .initial .ones) ∧
    (∃ c : Course Value,
      c.Explains .standard (fun ev => evalStep .standard 2 ev loop) (.initial .ones) closeBlock) ∧
    eval .standard 3 loop (.initial .ones) = (.done (.int 5), .initial .ones) := by
  intro sum loop
  refine ⟨(evalStep_propagates .standard 2 sum (.initial .ones)).1 ?_, rfl,
    (evalStep_propagates .standard 2 loop (.initial .ones)).2 ⟨.loop, by decide, .inr rfl⟩, rfl⟩
  rintro ⟨op, hlookup, -⟩
  have hsum : Library.standard.operations.lookup? "+" = some (.arithmetic (.fold .add)) := by decide
  rw [hsum] at hlookup
  cases hlookup

end TextAdventure
