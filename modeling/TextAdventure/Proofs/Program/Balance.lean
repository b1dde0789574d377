import TextAdventure.Proofs.Program.Scoping

/-!
What every evaluation gives back.

A block opens a scope and counts itself, and a call counts itself; both take back what they did,
whether they end with a value, with a signal or with a failure.

* `Machine.Balanced` — as many scopes, blocks and calls as before;
* `balance_transition` — every step of evaluation leaves the machine balanced.
-/

namespace TextAdventure

/-- One machine has as many scopes open, as many blocks entered and as many calls under way as
another. -/
structure Machine.Balanced (m m' : Machine) : Prop where
  scopes : m'.frame.scopes.length = m.frame.scopes.length
  blocks : m'.frame.blockDepth = m.frame.blockDepth
  calls : m'.depth = m.depth

theorem Machine.Balanced.trans {m₁ m₂ m₃ : Machine} (h : m₁.Balanced m₂) (h' : m₂.Balanced m₃) :
    m₁.Balanced m₃ :=
  ⟨h'.scopes.trans h.scopes, h'.blocks.trans h.blocks, h'.calls.trans h.calls⟩

theorem Frame.blockDepth_bind (f : Frame) (name : String) (value : Value) (assigned : Bool) :
    (f.bind name value assigned).blockDepth = f.blockDepth := by
  rw [Frame.bind]
  split <;> rfl

theorem Frame.blockDepth_assign (f : Frame) (name : String) (value : Value) :
    (f.assign name value).blockDepth = f.blockDepth := by
  rw [Frame.assign]
  split <;> rfl

/-- Leaving a block takes back what entering it did. -/
theorem Machine.Balanced.closeBlock {m m' : Machine}
    (h : Machine.Balanced { m with frame := m.frame.openBlock } m') :
    m.Balanced { m' with frame := m'.frame.closeBlock } := by
  have hscopes : m'.frame.scopes.length = m.frame.scopes.length + 1 := by
    rw [h.scopes, Frame.scopes_openBlock, List.length_append]
    rfl
  have hpos : 0 < m.frame.scopes.length := Nat.succ_pos _
  refine ⟨?_, ?_, h.calls⟩
  · rw [Frame.scopes_closeBlock (by omega), List.length_dropLast]
    omega
  · have hblocks : m'.frame.blockDepth = m.frame.blockDepth + 1 := h.blocks
    show m'.frame.blockDepth - 1 = m.frame.blockDepth
    omega

theorem balance_transition (lib : Library) :
    Transition lib Machine.Balanced Machine.Balanced where
  refl _ := ⟨rfl, rfl, rfl⟩
  trans _ _ _ h h' := h.trans h'
  lift h := h
  andThen _ _ _ h h' := h.trans h'
  output _ _ := ⟨rfl, rfl, rfl⟩
  random _ _ := ⟨rfl, rfl, rfl⟩
  quit _ := ⟨rfl, rfl, rfl⟩
  assign m name value := by
    obtain ⟨k, -, -, hscopes⟩ := m.frame.scopes_assign name value
    refine ⟨?_, m.frame.blockDepth_assign name value, rfl⟩
    show (m.frame.assign name value).scopes.length = _
    rw [hscopes, List.length_modify]
  world _ _ _ := ⟨rfl, rfl, rfl⟩
  bindName m name value assigned := by
    refine ⟨?_, m.frame.blockDepth_bind name value assigned, rfl⟩
    show (m.frame.bind name value assigned).scopes.length = _
    rw [Frame.scopes_bind, List.length_modify]
  endBlock h := h.closeBlock
  endCall {_ m'} _ _ h := ⟨rfl, rfl, by show m'.depth - 1 = _; rw [h.calls]; rfl⟩

end TextAdventure
