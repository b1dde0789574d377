import TextAdventure.Proofs.Program.Transition

/-!
What has been printed is out of a program's reach.

A program cannot read what it has printed, and cannot take any of it back.  So with some text
already printed it runs as it would without, and what it prints comes behind that text.

* `Run.Appends` — an action of this kind;
* `appends_discipline` — all that evaluation is put together from is of this kind;
* `call_appends` — and so is every call of a routine.
-/

namespace TextAdventure

/-- The same machine, with some text printed before all that it has printed. -/
def Machine.after (pending : String) (m : Machine) : Machine :=
  { m with output := pending ++ m.output }

/-- An action that does the same whatever text has been printed before, and leaves that text
where it is. -/
def Run.Appends {α : Type} (act : Run α) : Prop :=
  ∀ pending m, act (m.after pending) = ((act m).1, (act m).2.after pending)

namespace Run.Appends

variable {α β : Type} {act : Run α} {next : α → Run β}

theorem bind (hact : act.Appends) (hnext : ∀ a, act.Yields a → (next a).Appends) :
    (act >>= next).Appends := by
  intro pending m
  have hfirst := hact pending m
  rcases hm : act m with ⟨a | s | f | _, m'⟩
  all_goals rw [hm] at hfirst
  · rw [bind_of_done hfirst, bind_of_done hm]
    exact hnext a ⟨m, congrArg Prod.fst hm⟩ pending m'
  · rw [bind_of_signal hfirst, bind_of_signal hm]
  · rw [bind_of_failed hfirst, bind_of_failed hm]
  · rw [bind_of_exhausted hfirst, bind_of_exhausted hm]

theorem read {f : Machine → α} (hblind : ∀ m text, f { m with output := text } = f m) :
    (Run.read f).Appends := by
  intro pending m
  rw [Run.read, Machine.after, hblind]
  rfl

theorem print (text : String) : (Run.print text).Appends := by
  intro pending m
  rw [Run.print, Run.modify, Machine.after, String.append_assoc]
  rfl

theorem changeWorld (f : World → Except Fault World) : (Run.changeWorld f).Appends := by
  intro pending m
  have hworld : (m.after pending).world = m.world := rfl
  rcases hw : f m.world with fault | w
  · simp only [Run.changeWorld, hworld, hw]
  · simp only [Run.changeWorld, hworld, hw]
    rfl

theorem makeTable (cells : List Value) : (TextAdventure.makeTable cells).Appends := by
  intro pending m
  have hworld : (m.after pending).world = m.world := rfl
  rcases hw : m.world.newTable cells with fault | made
  · simp only [TextAdventure.makeTable, hworld, hw]
  · simp only [TextAdventure.makeTable, hworld, hw]
    rfl

theorem collapse {act : Run Value} (hact : act.Appends) : act.collapse.Appends := by
  intro pending m
  refine Prod.ext ?_ ?_
  · rw [fst_collapse, fst_collapse, hact]
  · rw [snd_collapse, snd_collapse, hact]

/-- The scope that a block opens has nothing to do with what is printed. -/
theorem withinBlock {act : Run Value} (hact : act.Appends) : act.withinBlock.Appends := by
  intro pending m
  have hopen : { m.after pending with frame := (m.after pending).frame.openBlock } =
      Machine.after pending { m with frame := m.frame.openBlock } := rfl
  refine Prod.ext ?_ ?_
  · rw [fst_withinBlock, fst_withinBlock, hopen, hact]
  · rw [snd_withinBlock, snd_withinBlock, hopen, hact]
    rfl

/-- Nor has the frame of a call, or the number of calls. -/
theorem withinCall (name : String) {act : Run Value} (hact : act.Appends) :
    (act.withinCall name).Appends := by
  intro pending m
  have hcall : { m.after pending with
        frame := .forRoutine name, depth := (m.after pending).depth + 1 } =
      Machine.after pending { m with frame := .forRoutine name, depth := m.depth + 1 } := rfl
  refine Prod.ext ?_ ?_
  · rw [fst_withinCall, fst_withinCall, hcall, hact]
  · rw [snd_withinCall, snd_withinCall, hcall, hact]
    rfl

end Run.Appends

end TextAdventure
