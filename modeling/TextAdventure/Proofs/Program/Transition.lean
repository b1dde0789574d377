import TextAdventure.Proofs.Program.Discipline

/-!
Relations between the machine before and after a run.

Whatever its outcome, an action leaves a machine behind.  A relation between machines that holds
across every single action, and that blocks and calls restore, holds across every evaluation.

* `Run.Across` — an action relates the machine it starts from to the one it leaves behind;
* `Transition` — what a relation has to satisfy to hold across evaluation;
* `Transition.eval`, `Transition.call`, `Transition.evalForms` — then it does.
-/

namespace TextAdventure

/-! ### Sequences -/

/-- A sequence that ends with a value has gone through all its actions. -/
theorem Run.bind_eq_done {α β : Type} {act : Run α} {next : α → Run β} {m m' : Machine} {b : β}
    (h : (act >>= next) m = (.done b, m')) :
    ∃ a m₁, act m = (.done a, m₁) ∧ next a m₁ = (.done b, m') := by
  rcases hact : act m with ⟨a | s | f | _, m₁⟩
  · rw [bind_of_done hact] at h
    exact ⟨a, m₁, rfl, h⟩
  · rw [bind_of_signal hact] at h
    cases h
  · rw [bind_of_failed hact] at h
    cases h
  · rw [bind_of_exhausted hact] at h
    cases h

theorem Run.bind_congr {α β : Type} {act act' : Run α} {m m' : Machine} (h : act m = act' m')
    (next : α → Run β) : (act >>= next) m = (act' >>= next) m' := by
  show Run.bind act next m = Run.bind act' next m'
  rw [Run.bind, Run.bind, h]

theorem Run.bind_assoc {α β γ : Type} (act : Run α) (next : α → Run β) (last : β → Run γ) :
    (act >>= next) >>= last = act >>= fun a => next a >>= last := by
  funext m
  rcases hact : act m with ⟨a | s | f | _, m'⟩
  · rw [Run.bind_of_done hact]
    exact Run.bind_congr (Run.bind_of_done hact) last
  · rw [Run.bind_of_signal hact, Run.bind_of_signal (Run.bind_of_signal hact)]
  · rw [Run.bind_of_failed hact, Run.bind_of_failed (Run.bind_of_failed hact)]
  · rw [Run.bind_of_exhausted hact, Run.bind_of_exhausted (Run.bind_of_exhausted hact)]

/-- The signal of a `RETURN`: for the innermost block, or for the routine where there is none. -/
def Frame.returnSignal (f : Frame) (value : Value) : Signal :=
  if f.inBlock then .leave value else .exit value

theorem Frame.value_returnSignal (f : Frame) (v : Value) : (f.returnSignal v).value = v := by
  rw [Frame.returnSignal]
  split <;> rfl

theorem leaveWith_apply (value : Value) (m : Machine) :
    leaveWith value m = (.signal (m.frame.returnSignal value), m) := by
  have hread : Run.read (·.frame.inBlock) m = (.done m.frame.inBlock, m) := rfl
  rw [leaveWith, Run.bind_of_done hread, Frame.returnSignal]
  split <;> rfl

/-! ### The machine behind a boundary -/

theorem Run.snd_collapse (act : Run Value) (m : Machine) : (act.collapse m).2 = (act m).2 := by
  rw [Run.collapse]
  rcases act m with ⟨_ | _ | _ | _, _⟩ <;> rfl

theorem Run.snd_withinBlock (act : Run Value) (m : Machine) :
    (act.withinBlock m).2 =
      { (act { m with frame := m.frame.openBlock }).2 with
        frame := (act { m with frame := m.frame.openBlock }).2.frame.closeBlock } := by
  rw [Run.withinBlock]
  rcases act { m with frame := m.frame.openBlock } with ⟨_ | s | _ | _, _⟩
  · rfl
  · cases s <;> rfl
  · rfl
  · rfl

theorem Run.snd_withinCall (name : String) (act : Run Value) (m : Machine) :
    (act.withinCall name m).2 =
      { (act { m with frame := .forRoutine name, depth := m.depth + 1 }).2 with
        frame := m.frame
        depth :=
          (act { m with frame := .forRoutine name, depth := m.depth + 1 }).2.depth - 1 } := by
  rw [Run.withinCall]
  rcases act { m with frame := .forRoutine name, depth := m.depth + 1 } with ⟨_ | _ | _ | _, _⟩ <;>
    rfl

/-! ### The outcome behind a boundary -/

/-- What `Run.collapse` makes of an outcome. -/
def Outcome.collapsed : Outcome Value → Outcome Value
  | .signal s => .done s.value
  | other => other

/-- What the end of a block makes of an outcome. -/
def Outcome.leftBlock : Outcome Value → Outcome Value
  | .signal (.leave value) => .done value
  | other => other

/-- What the end of a call makes of an outcome. -/
def Outcome.leftCall (name : String) : Outcome Value → Outcome Value
  | .failed f => .failed (f.inRoutine name)
  | other => other

/-- No boundary makes a shortage, or does away with one. -/
theorem Outcome.collapsed_eq_exhausted {o : Outcome Value} {what : Shortage} :
    o.collapsed = .exhausted what ↔ o = .exhausted what := by
  rcases o with _ | _ | _ | _
  · exact ⟨nofun, nofun⟩
  · exact ⟨nofun, nofun⟩
  · exact ⟨nofun, nofun⟩
  · exact Iff.rfl

theorem Outcome.leftBlock_eq_exhausted {o : Outcome Value} {what : Shortage} :
    o.leftBlock = .exhausted what ↔ o = .exhausted what := by
  rcases o with _ | s | _ | _
  · exact ⟨nofun, nofun⟩
  · cases s <;> exact ⟨nofun, nofun⟩
  · exact ⟨nofun, nofun⟩
  · exact Iff.rfl

theorem Outcome.leftCall_eq_exhausted {name : String} {o : Outcome Value} {what : Shortage} :
    o.leftCall name = .exhausted what ↔ o = .exhausted what := by
  rcases o with _ | _ | _ | _
  · exact ⟨nofun, nofun⟩
  · exact ⟨nofun, nofun⟩
  · exact ⟨nofun, nofun⟩
  · exact Iff.rfl

theorem Run.fst_collapse (act : Run Value) (m : Machine) :
    (act.collapse m).1 = (act m).1.collapsed := by
  rw [Run.collapse]
  rcases act m with ⟨_ | _ | _ | _, _⟩ <;> rfl

theorem Run.fst_withinBlock (act : Run Value) (m : Machine) :
    (act.withinBlock m).1 = (act { m with frame := m.frame.openBlock }).1.leftBlock := by
  rw [Run.withinBlock]
  rcases act { m with frame := m.frame.openBlock } with ⟨_ | s | _ | _, _⟩
  · rfl
  · cases s <;> rfl
  · rfl
  · rfl

theorem Run.fst_withinCall (name : String) (act : Run Value) (m : Machine) :
    (act.withinCall name m).1 =
      (act { m with frame := .forRoutine name, depth := m.depth + 1 }).1.leftCall name := by
  rw [Run.withinCall]
  rcases act { m with frame := .forRoutine name, depth := m.depth + 1 } with ⟨_ | _ | _ | _, _⟩ <;>
    rfl

/-! ### Relations across actions -/

/-- A relation holds between the machine before and the machine after an action, however the
action ends. -/
def Run.Across (R : Machine → Machine → Prop) {α : Type} (act : Run α) : Prop :=
  ∀ m, R m (act m).2

namespace Run.Across

variable {R S : Machine → Machine → Prop} {α β : Type}

theorem mono (hRS : ∀ m m', R m m' → S m m') {act : Run α} (h : Run.Across R act) :
    Run.Across S act :=
  fun m => hRS _ _ (h m)

theorem of_eq (hrefl : ∀ m, R m m) {act : Run α} (h : ∀ m, (act m).2 = m) :
    Run.Across R act := by
  intro m
  rw [h m]
  exact hrefl m

theorem bind (htrans : ∀ m₁ m₂ m₃, R m₁ m₂ → R m₂ m₃ → R m₁ m₃) {act : Run α}
    {next : α → Run β} (hact : Run.Across R act)
    (hnext : ∀ a, act.Yields a → Run.Across R (next a)) : Run.Across R (act >>= next) := by
  intro m
  have hfirst := hact m
  -- only an action that yields a value is followed by another one
  rcases hm : act m with ⟨a | s | f | _, m'⟩
  all_goals rw [hm] at hfirst
  · rw [bind_of_done hm]
    exact htrans _ _ _ hfirst (hnext a ⟨m, congrArg Prod.fst hm⟩ m')
  · rw [bind_of_signal hm]
    exact hfirst
  · rw [bind_of_failed hm]
    exact hfirst
  · rw [bind_of_exhausted hm]
    exact hfirst

theorem collapse {act : Run Value} (hact : Run.Across R act) : Run.Across R act.collapse := by
  intro m
  rw [Run.snd_collapse]
  exact hact m

theorem withinBlock (hblock : ∀ {m m'}, S { m with frame := m.frame.openBlock } m' →
      R m { m' with frame := m'.frame.closeBlock }) {act : Run Value}
    (hact : Run.Across S act) : Run.Across R act.withinBlock := by
  intro m
  rw [Run.snd_withinBlock]
  exact hblock (hact _)

theorem changeWorld (hrefl : ∀ m, R m m) {f : World → Except Fault World}
    (hf : ∀ m w, f m.world = .ok w → R m { m with world := w }) :
    Run.Across R (Run.changeWorld f) := by
  intro m
  rw [Run.changeWorld]
  rcases hw : f m.world with _ | w
  · exact hrefl m
  · exact hf m w hw

end Run.Across

/-- A relation `R` that holds across every step of evaluation, and a relation `Q` that holds
across those steps and across the binding of a name in the innermost scope.  Closing a block, and
returning from a call, lead from `Q` back to `R`. -/
structure Transition (lib : Library) (R Q : Machine → Machine → Prop) : Prop where
  refl (m : Machine) : R m m
  trans (m₁ m₂ m₃ : Machine) (h : R m₁ m₂) (h' : R m₂ m₃) : R m₁ m₃
  lift {m m' : Machine} (h : R m m') : Q m m'
  andThen (m₁ m₂ m₃ : Machine) (h : Q m₁ m₂) (h' : Q m₂ m₃) : Q m₁ m₃
  output (m : Machine) (text : String) : R m { m with output := m.output ++ text }
  random (m : Machine) (generator : Generator) : R m { m with random := generator }
  quit (m : Machine) : R m { m with quit := true }
  assign (m : Machine) (name : String) (value : Value) :
    R m { m with frame := m.frame.assign name value }
  world (m : Machine) {w : World} (h : World.ProgramChange m.world w) :
    R m { m with world := w }
  bindName (m : Machine) (name : String) (value : Value) (assigned : Bool) :
    Q m { m with frame := m.frame.bind name value assigned }
  endBlock {m m' : Machine} (h : Q { m with frame := m.frame.openBlock } m') :
    R m { m' with frame := m'.frame.closeBlock }
  endCall {m m' : Machine} (name : String) (hdepth : m.depth < lib.maxDepth)
    (h : Q { m with frame := .forRoutine name, depth := m.depth + 1 } m') :
    R m { m' with frame := m.frame, depth := m'.depth - 1 }

namespace Transition

variable {lib : Library} {R Q : Machine → Machine → Prop}

theorem discipline (h : Transition lib R Q) :
    Discipline lib (fun _ => Run.Across R) (fun _ => Run.Across Q) where
  pure a := .of_eq h.refl fun _ => rfl
  bind hact hnext := .bind h.trans hact hnext
  fail fault := .of_eq h.refl fun _ => rfl
  exhaust _ := .of_eq h.refl fun _ => rfl
  returnTrue := .of_eq h.refl fun _ => rfl
  returnFalse := .of_eq h.refl fun _ => rfl
  leaveWith value := .of_eq h.refl fun m => by rw [leaveWith_apply]
  collapse hact := .collapse hact
  read _ := .of_eq h.refl fun _ => rfl
  print text m := h.output m text
  random limit m := h.random m _
  quit m := h.quit m
  assign name value m := h.assign m name value
  setGlobal name value m := h.world m (.setGlobal m.world name value)
  makeTable cells m := by
    rw [makeTable]
    rcases hmade : m.world.newTable cells with fault | ⟨w, t⟩
    · exact h.refl m
    · exact h.world m (.newTable hmade)
  changeWorld hf := .changeWorld h.refl fun m w hw => h.world m (hf _ _ hw)
  lift hact := .mono (fun _ _ => h.lift) hact
  andThen hact hnext := .bind h.andThen hact hnext
  bindName name value assigned m := h.bindName m name value assigned
  withinBlock hact := .withinBlock h.endBlock hact
  withinCall name act _ hact m := by
    dsimp only
    split
    -- at the greatest depth the call fails before it has changed anything
    · exact h.refl m
    · rename_i hdepth
      rw [Run.snd_withinCall]
      exact h.endCall name (by omega) (hact _)

theorem eval (h : Transition lib R Q) (fuel : Nat) (node : Node) :
    Run.Across R (eval lib fuel node) :=
  h.discipline.eval fuel node

theorem call (h : Transition lib R Q) (fuel : Nat) (name : String) (args : List Value) :
    Run.Across R (TextAdventure.call lib fuel name args) :=
  h.discipline.call fuel name args

theorem evalForms (h : Transition lib R Q) (fuel : Nat) (nodes : List Node) :
    Run.Across R (evalForms lib fuel nodes) :=
  h.discipline.evalBody (fun node => .collapse (h.eval fuel node)) nodes

end Transition

end TextAdventure
