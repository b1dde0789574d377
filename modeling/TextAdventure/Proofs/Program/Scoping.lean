import TextAdventure.Proofs.Program.Transition

/-!
Lexical scoping of blocks.

The scopes of a frame are numbered from the outside: the routine's own scope is number 0, and
each open block adds one.  Evaluation may change what names are bound to and may make new
variables of the routine, but a block's bindings end with the block, and a binding that is
shadowed is out of reach.

* `ScopesKept` — how the scopes of a frame may differ after an evaluation;
* `Frame.scopes_assign`, `Frame.scopes_bind` — assignment and binding write to one scope;
* `scoping_transition` — every step of evaluation, block and call respects this;
* `eval_lexical_scoping` — so does every evaluation, and nothing that runs in a block reaches past
  the names the block has bound.

Design notes.  `ScopesKept grows` says which scopes may gain names.  Outside the head of a block
it is the routine's own scope alone; in the head of a block or routine it is the innermost scope
as well.
-/

namespace TextAdventure

namespace Frame

/-- The scopes of a frame, outermost first. -/
def scopes (f : Frame) : List Scope := f.outer :: f.inner.reverse

/-- What a name is bound to in the scope with a given number. -/
def bindingAt (f : Frame) (i : Nat) (name : String) : Option Binding :=
  f.scopes[i]?.bind (·.get? name)

/-- Whether the scope with a given number binds a name. -/
def Binds (f : Frame) (i : Nat) (name : String) : Prop := (f.bindingAt i name).isSome

theorem bindingAt_of_length_le {f : Frame} {i : Nat} (h : f.scopes.length ≤ i) (x : String) :
    f.bindingAt i x = none := by
  rw [bindingAt, List.getElem?_eq_none h]
  rfl

theorem Binds.lt_length {f : Frame} {i : Nat} {x : String} (h : f.Binds i x) :
    i < f.scopes.length := by
  by_contra hge
  rw [Binds, bindingAt_of_length_le (by omega)] at h
  cases h

end Frame

/-- The scopes of a frame before and after: their number is the same, names stay bound, only
scopes that may grow bind further names, and a binding that is shadowed by a scope further in is
as it was. -/
structure ScopesKept (grows : Nat → Prop) (f f' : Frame) : Prop where
  length : f'.scopes.length = f.scopes.length
  bound : ∀ i x, f.Binds i x → f'.Binds i x
  fresh : ∀ i x, ¬ grows i → f'.Binds i x → f.Binds i x
  shadowed : ∀ i j x, i < j → f.Binds j x → f'.bindingAt i x = f.bindingAt i x

namespace ScopesKept

variable {grows : Nat → Prop} {f f' f'' : Frame}

theorem refl (grows : Nat → Prop) (f : Frame) : ScopesKept grows f f :=
  ⟨rfl, fun _ _ h => h, fun _ _ _ h => h, fun _ _ _ _ _ => rfl⟩

theorem trans (h : ScopesKept grows f f') (h' : ScopesKept grows f' f'') :
    ScopesKept grows f f'' where
  length := h'.length.trans h.length
  bound i x hx := h'.bound i x (h.bound i x hx)
  fresh i x hi hx := h.fresh i x hi (h'.fresh i x hi hx)
  shadowed i j x hij hx :=
    (h'.shadowed i j x hij (h.bound j x hx)).trans (h.shadowed i j x hij hx)

theorem mono {grows' : Nat → Prop} (hgrows : ∀ i, grows i → grows' i)
    (h : ScopesKept grows f f') : ScopesKept grows' f f' where
  length := h.length
  bound := h.bound
  fresh i x hi hx := h.fresh i x (fun hg => hi (hgrows i hg)) hx
  shadowed := h.shadowed

/-- A write of one name in one scope, which binds the name already or may grow, while no scope
further in binds it. -/
theorem of_write {k : Nat} {x : String} {b : Binding}
    (hscopes : f'.scopes = f.scopes.modify k (·.insert x b)) (hk : grows k ∨ f.Binds k x)
    (hinner : ∀ j, k < j → ¬ f.Binds j x) : ScopesKept grows f f' := by
  have hother : ∀ i y, i ≠ k ∨ y ≠ x → f'.bindingAt i y = f.bindingAt i y := by
    intro i y hne
    rw [Frame.bindingAt, Frame.bindingAt, hscopes]
    by_cases hi : i = k
    · subst hi
      have hy : y ≠ x := hne.resolve_left fun h => h rfl
      rw [List.getElem?_modify_eq]
      rcases f.scopes[i]? with _ | scope
      · rfl
      · show (scope.insert x b).get? y = scope.get? y
        rw [NameMap.get?_insert, if_neg hy]
    · rw [List.getElem?_modify_ne _ _ fun h => hi h.symm]
  have hwritten : k < f.scopes.length → f'.Binds k x := by
    intro hlt
    rw [Frame.Binds, Frame.bindingAt, hscopes, List.getElem?_modify_eq,
      List.getElem?_eq_getElem hlt]
    show (((f.scopes[k]).insert x b).get? x).isSome
    rw [NameMap.get?_insert, if_pos rfl]
    rfl
  refine ⟨by rw [hscopes, List.length_modify], fun i y hy => ?_, fun i y hi hy => ?_,
    fun i j y hij hy => ?_⟩
  · by_cases hne : i ≠ k ∨ y ≠ x
    · rw [Frame.Binds, hother i y hne]
      exact hy
    · obtain ⟨rfl, rfl⟩ : i = k ∧ y = x := by simpa [not_or] using hne
      exact hwritten hy.lt_length
  · by_cases hne : i ≠ k ∨ y ≠ x
    · rw [Frame.Binds, hother i y hne] at hy
      exact hy
    · obtain ⟨rfl, rfl⟩ : i = k ∧ y = x := by simpa [not_or] using hne
      exact hk.resolve_left hi
  · -- the written binding is not shadowed, so a shadowed one is another
    refine hother i y ?_
    by_contra hsame
    obtain ⟨rfl, rfl⟩ : i = k ∧ y = x := by simpa [not_or] using hsame
    exact hinner j hij hy

end ScopesKept

/-! ### Assignment and binding -/

namespace Frame

theorem modify_append_length {α : Type} (before : List α) (a : α) (after : List α)
    (change : α → α) :
    (before ++ a :: after).modify before.length change = before ++ change a :: after := by
  induction before with
  | nil => rfl
  | cons b before ih => rw [List.cons_append, List.length_cons, List.modify_succ_cons, ih]; rfl

theorem scopes_bind (f : Frame) (name : String) (value : Value) (assigned : Bool) :
    (f.bind name value assigned).scopes =
      f.scopes.modify (f.scopes.length - 1) (·.insert (canonical name) ⟨value, assigned⟩) := by
  rcases f with ⟨routine, outer, inner, depth⟩
  rcases inner with _ | ⟨scope, inner⟩
  · rfl
  · simp only [bind, scopes, List.reverse_cons, List.length_cons, List.length_append,
      List.length_reverse, List.length_nil]
    have hwrite := modify_append_length (outer :: inner.reverse) scope []
      (·.insert (canonical name) ⟨value, assigned⟩)
    simpa using hwrite.symm

theorem replaceBinding_eq_some {name : String} {b : Binding} {scopes written : List Scope}
    (h : replaceBinding name b scopes = some written) :
    ∃ before scope after, scopes = before ++ scope :: after ∧
      (∀ s ∈ before, s.get? name = none) ∧ (scope.get? name).isSome ∧
      written = before ++ scope.insert name b :: after := by
  induction scopes generalizing written with
  | nil => cases h
  | cons scope scopes ih =>
    rw [replaceBinding] at h
    split at h
    · rename_i hcontains
      cases h
      exact ⟨[], scope, scopes, rfl, fun _ hs => (List.not_mem_nil hs).elim, hcontains, rfl⟩
    · rename_i hcontains
      obtain ⟨rest, hrest, rfl⟩ := Option.map_eq_some_iff.mp h
      obtain ⟨before, found, after, rfl, hbefore, hfound, rfl⟩ := ih hrest
      refine ⟨scope :: before, found, after, rfl, fun s hs => ?_, hfound, rfl⟩
      rcases List.mem_cons.mp hs with rfl | hs
      · simpa [NameMap.contains] using hcontains
      · exact hbefore s hs

theorem replaceBinding_eq_none {name : String} {b : Binding} {scopes : List Scope}
    (h : replaceBinding name b scopes = none) : ∀ s ∈ scopes, s.get? name = none := by
  induction scopes with
  | nil => exact fun _ hs => (List.not_mem_nil hs).elim
  | cons scope scopes ih =>
    rw [replaceBinding] at h
    split at h
    · cases h
    · rename_i hcontains
      intro s hs
      rcases List.mem_cons.mp hs with rfl | hs
      · simpa [NameMap.contains] using hcontains
      · exact ih (Option.map_eq_none_iff.mp h) s hs

/-- A name that none of some scopes binds is not bound behind the place where they begin. -/
theorem not_binds_of_forall {f : Frame} {x : String} {j : Nat} (outside : List Scope)
    {inside : List Scope} (hscopes : f.scopes = outside ++ inside)
    (hinside : ∀ s ∈ inside, s.get? x = none) (hj : outside.length ≤ j) : ¬ f.Binds j x := by
  rw [Binds, bindingAt, hscopes, List.getElem?_append_right hj]
  rcases hs : inside[j - outside.length]? with _ | s
  · exact Bool.false_ne_true
  · rw [Option.bind_some, hinside s (List.mem_of_getElem? hs)]
    exact Bool.false_ne_true

/-- Assignment writes to the innermost scope that binds the name, and to the routine's own scope
when none does. -/
theorem scopes_assign (f : Frame) (name : String) (value : Value) :
    ∃ k, (k = 0 ∨ f.Binds k (canonical name)) ∧ (∀ j, k < j → ¬ f.Binds j (canonical name)) ∧
      (f.assign name value).scopes =
        f.scopes.modify k (·.insert (canonical name) ⟨value, true⟩) := by
  rw [assign]
  rcases hr : replaceBinding (canonical name) ⟨value, true⟩ f.inner with _ | written
  · have hnone := replaceBinding_eq_none hr
    refine ⟨0, .inl rfl, fun j hj => ?_, rfl⟩
    exact not_binds_of_forall [f.outer] rfl
      (fun s hs => hnone s (List.mem_reverse.mp hs)) hj
  · obtain ⟨before, scope, after, hinner, hbefore, hscope, rfl⟩ := replaceBinding_eq_some hr
    have hscopes : f.scopes = (f.outer :: after.reverse) ++ scope :: before.reverse := by
      rw [scopes, hinner]
      simp
    refine ⟨(f.outer :: after.reverse).length, .inr ?_, fun j hj => ?_, ?_⟩
    · rw [Binds, bindingAt, hscopes, List.getElem?_append_right (le_refl _), Nat.sub_self]
      exact hscope
    · refine not_binds_of_forall ((f.outer :: after.reverse) ++ [scope])
        (by rw [hscopes]; simp) (fun s hs => hbefore s (List.mem_reverse.mp hs)) ?_
      rw [List.length_append]
      exact hj
    · rw [hscopes, modify_append_length]
      simp [scopes]

/-! ### Blocks -/

theorem scopes_openBlock (f : Frame) : f.openBlock.scopes = f.scopes ++ [.empty] := by
  simp [openBlock, enterBlock, pushScope, scopes]

/-- Leaving a block takes away the last scope and no other. -/
theorem scopes_closeBlock {f : Frame} (h : 2 ≤ f.scopes.length) :
    f.closeBlock.scopes = f.scopes.dropLast := by
  rcases f with ⟨routine, outer, inner, depth⟩
  rcases inner with _ | ⟨scope, inner⟩
  · simp [scopes] at h
  · simp [closeBlock, leaveBlock, popScope, scopes, List.dropLast_cons_of_ne_nil]

theorem bindingAt_openBlock {f : Frame} {i : Nat} (h : i < f.scopes.length) (x : String) :
    f.openBlock.bindingAt i x = f.bindingAt i x := by
  rw [bindingAt, bindingAt, scopes_openBlock, List.getElem?_append_left h]

theorem bindingAt_closeBlock {f : Frame} {i : Nat} (h : i + 1 < f.scopes.length) (x : String) :
    f.closeBlock.bindingAt i x = f.bindingAt i x := by
  rw [bindingAt, bindingAt, scopes_closeBlock (by omega), List.getElem?_dropLast,
    if_pos (by omega)]

end Frame

/-- What holds inside a block, whose own scope may gain names, holds outside it once the block
is closed. -/
theorem ScopesKept.closeBlock {f f' : Frame}
    (h : ScopesKept (fun i => i = 0 ∨ i + 1 = f.openBlock.scopes.length) f.openBlock f') :
    ScopesKept (· = 0) f f'.closeBlock := by
  have hopen : f.openBlock.scopes.length = f.scopes.length + 1 := by
    rw [Frame.scopes_openBlock, List.length_append]
    rfl
  have hlen : f'.scopes.length = f.scopes.length + 1 := h.length.trans hopen
  have hpos : 0 < f.scopes.length := Nat.succ_pos _
  have hclosed : f'.closeBlock.scopes.length = f.scopes.length := by
    rw [Frame.scopes_closeBlock (by omega), List.length_dropLast, hlen]
    rfl
  have hout : ∀ {i}, i < f.scopes.length → ∀ x, f'.closeBlock.bindingAt i x = f'.bindingAt i x :=
    fun hi x => Frame.bindingAt_closeBlock (by omega) x
  have hin : ∀ {i}, i < f.scopes.length → ∀ x, f.openBlock.bindingAt i x = f.bindingAt i x :=
    fun hi x => Frame.bindingAt_openBlock hi x
  refine ⟨hclosed, fun i x hx => ?_, fun i x hi hx => ?_, fun i j x hij hx => ?_⟩
  · have hlt := hx.lt_length
    rw [Frame.Binds, hout hlt]
    refine h.bound i x ?_
    rw [Frame.Binds, hin hlt]
    exact hx
  · have hlt : i < f.scopes.length := hclosed ▸ hx.lt_length
    rw [Frame.Binds, hout hlt] at hx
    have hold := h.fresh i x (by omega) hx
    rw [Frame.Binds, hin hlt] at hold
    exact hold
  · have hlt := hx.lt_length
    rw [hout (by omega), ← hin (by omega)]
    refine h.shadowed i j x hij ?_
    rw [Frame.Binds, hin hlt]
    exact hx

/-! ### Evaluation -/

/-- The scopes that gain names while the names of a block or routine are bound. -/
def headGrows (m : Machine) (i : Nat) : Prop := i = 0 ∨ i + 1 = m.frame.scopes.length

theorem headGrows_eq {m m' : Machine} (h : m'.frame.scopes.length = m.frame.scopes.length) :
    headGrows m' = headGrows m := by
  funext i
  rw [headGrows, headGrows, h]

theorem scoping_transition (lib : Library) :
    Transition lib (fun m m' => ScopesKept (· = 0) m.frame m'.frame)
      (fun m m' => ScopesKept (headGrows m) m.frame m'.frame) where
  refl m := .refl _ m.frame
  trans _ _ _ h h' := h.trans h'
  lift h := h.mono fun _ => .inl
  andThen _ _ _ h h' := h.trans (headGrows_eq h.length ▸ h')
  output m _ := .refl _ m.frame
  random m _ := .refl _ m.frame
  quit m := .refl _ m.frame
  assign m name value := by
    obtain ⟨k, hk, hinner, hscopes⟩ := m.frame.scopes_assign name value
    exact .of_write hscopes hk hinner
  world m _ _ := .refl _ m.frame
  bindName m name value assigned := by
    refine .of_write (m.frame.scopes_bind name value assigned) (.inl (.inr ?_)) fun j hj hx => ?_
    · exact Nat.sub_add_cancel (Nat.succ_pos _)
    · have hlt := hx.lt_length
      omega
  endBlock h := h.closeBlock
  endCall {m _} _ _ _ := .refl _ m.frame

/-- Once some entries of a binding list are bound, what is left of the list is bound as if it
were the whole list. -/
theorem bindEntries_append {ev : Node → Run Value} {before : List Node} {m m₁ : Machine}
    (h : bindEntries ev before m = (.done (), m₁)) (after : List Node) :
    bindEntries ev (before ++ after) m = bindEntries ev after m₁ := by
  induction before generalizing m with
  | nil =>
    cases h
    rfl
  | cons entry before ih =>
    obtain ⟨u, m', hentry, hrest⟩ := Run.bind_eq_done h
    show (bindEntry ev entry >>= fun _ => bindEntries ev (before ++ after)) m = _
    rw [Run.bind_of_done hentry]
    exact ih hrest

/-- Whatever runs in a block leaves a name that the block has bound as it is in all scopes
outside. -/
theorem bindingAt_withinBlock {lib : Library} {fuel : Nat} {before after body : List Node}
    {span : Span} {rest : List Node → Run Value} {m m₁ : Machine}
    (hrest : ∀ body, Run.Across (fun m m' => ScopesKept (headGrows m) m.frame m'.frame) (rest body))
    (hbefore : bindEntries (eval lib fuel) before { m with frame := m.frame.openBlock } =
      (.done (), m₁))
    {x : String} (hx : m₁.frame.Binds m.frame.scopes.length x) {i : Nat}
    (hi : i < m.frame.scopes.length) :
    (Run.withinBlock (do rest (← bindBlock (eval lib fuel)
      (.list (before ++ after) span :: body))) m).2.frame.bindingAt i x =
      m₁.frame.bindingAt i x := by
  have hd := (scoping_transition lib).discipline
  have hev := (scoping_transition lib).eval fuel
  -- the run of the block goes on from `m₁` as a block with the other entries would
  have hgoOn : (do rest (← bindBlock (eval lib fuel) (.list (before ++ after) span :: body)))
      { m with frame := m.frame.openBlock } =
      (do rest (← bindBlock (eval lib fuel) (.list after span :: body))) m₁ :=
    Run.bind_congr (Run.bind_congr (bindEntries_append hbefore after) _) _
  have hhead := hd.bindEntries hev before { m with frame := m.frame.openBlock }
  rw [hbefore] at hhead
  have hbody :=
    hd.andThen (hd.bindBlock hev (.list after span :: body)) (fun body _ => hrest body) m₁
  have hlen : m₁.frame.scopes.length = m.frame.scopes.length + 1 := by
    rw [hhead.length, Frame.scopes_openBlock, List.length_append]
    rfl
  rw [Run.snd_withinBlock, hgoOn, Frame.bindingAt_closeBlock (by rw [hbody.length]; omega)]
  exact hbody.shadowed i _ x hi hx

/-- Blocks are lexically scoped.  However the evaluation of a node ends, the scopes of the blocks
around it bind exactly the names they bound before, the routine's own scope binds at least those,
and a name that some scope binds is in all scopes further out bound as before or still absent.
So from the moment at which a `PROG` or `REPEAT` has bound a name, nothing that it runs changes
what the name is bound to outside. -/
theorem eval_lexical_scoping (lib : Library) (fuel : Nat) (m : Machine) :
    (∀ node, (eval lib fuel node m).2.frame.scopes.length = m.frame.scopes.length ∧
      (∀ i x, 1 ≤ i → ((eval lib fuel node m).2.frame.Binds i x ↔ m.frame.Binds i x)) ∧
      (∀ x, m.frame.Binds 0 x → (eval lib fuel node m).2.frame.Binds 0 x) ∧
      ∀ i j x, i < j → m.frame.Binds j x →
        (eval lib fuel node m).2.frame.bindingAt i x = m.frame.bindingAt i x) ∧
    ∀ operator op before after body span span' m₁,
      lib.operations.lookup? operator = some (.control op) → op = .block ∨ op = .loop →
      bindEntries (eval lib fuel) before { m with frame := m.frame.openBlock } =
        (.done (), m₁) →
      ∀ i x, i < m.frame.scopes.length → m₁.frame.Binds m.frame.scopes.length x →
        (eval lib (fuel + 1) (.form operator (.list (before ++ after) span :: body) span')
          m).2.frame.bindingAt i x = m₁.frame.bindingAt i x := by
  have hd := (scoping_transition lib).discipline
  have hev := (scoping_transition lib).eval fuel
  constructor
  · intro node
    have hkept := hev node m
    exact ⟨hkept.length, fun i x hi => ⟨hkept.fresh i x (by omega), hkept.bound i x⟩,
      hkept.bound 0, hkept.shadowed⟩
  · intro operator op before after body span span' m₁ hlookup hop hbefore i x hi hx
    rw [eval, evalStep, dispatch, hlookup]
    rcases hop with rfl | rfl
    · exact bindingAt_withinBlock (fun body => hd.lift (hd.evalBody hev body)) hbefore hx hi
    · exact bindingAt_withinBlock
        (fun body => hd.lift (hd.forever (hd.evalEach hev body) fuel)) hbefore hx hi

end TextAdventure
