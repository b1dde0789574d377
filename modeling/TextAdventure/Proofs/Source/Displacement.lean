import TextAdventure.Proofs.Source.Reading

/-!
Reading a text that stands behind another.

Where a text stands shows in the places of its tokens, nodes and mistakes and in nothing else.  Put
behind other lines, it is cut into the same tokens and read as the same nodes with the same
mistakes, each so many bytes and lines further on.

* `Displacement.behind` — how far a text is moved by the text before it;
* `tokensFrom_moved` — the tokens of a text that is moved;
* `Reader.accept_moved` — what one token does, moved, and with other nodes before it;
* `readRecovering_moved` — reading tokens that are moved, with other nodes and mistakes before them;
* `lineText_append` — the lines of a text behind other lines.

Design notes.  Only whole lines may stand before the text: columns do not change, so a `<` that
begins a line still does.
-/

namespace TextAdventure

/-- How far a text is moved: by so many bytes and so many lines. -/
structure Displacement where
  bytes : Nat
  lines : Nat
  deriving DecidableEq, Repr

namespace Displacement

/-- How far a text is moved by the text before it. -/
def behind (cs : List Char) : Displacement :=
  ⟨(String.ofList cs).utf8ByteSize, cs.count '\n'⟩

instance : Zero Displacement := ⟨⟨0, 0⟩⟩

instance : Add Displacement := ⟨fun d e => ⟨d.bytes + e.bytes, d.lines + e.lines⟩⟩

@[simp] theorem zero_bytes : (0 : Displacement).bytes = 0 := rfl

@[simp] theorem zero_lines : (0 : Displacement).lines = 0 := rfl

@[simp] theorem add_bytes (d e : Displacement) : (d + e).bytes = d.bytes + e.bytes := rfl

@[simp] theorem add_lines (d e : Displacement) : (d + e).lines = d.lines + e.lines := rfl

theorem behind_nil : behind [] = 0 := rfl

theorem behind_append (cs ds : List Char) : behind (cs ++ ds) = behind cs + behind ds := by
  show Displacement.mk _ _ = Displacement.mk _ _
  rw [String.ofList_append, String.utf8ByteSize_append, List.count_append]
  rfl

theorem behind_cons_bytes (c : Char) (cs : List Char) :
    (behind (c :: cs)).bytes = c.utf8Size + (behind cs).bytes := by
  rw [behind, String.ofList_cons, String.utf8ByteSize_append, String.utf8ByteSize_singleton]
  rfl

end Displacement

/-! ### What moves -/

def Position.moved (d : Displacement) (p : Position) : Position :=
  ⟨d.bytes + p.offset, d.lines + p.line, p.column⟩

def Span.moved (d : Displacement) (s : Span) : Span :=
  ⟨d.bytes + s.start, d.bytes + s.stop, d.lines + s.line, s.column⟩

def Token.moved (d : Displacement) (t : Token) : Token := { t with span := t.span.moved d }

namespace Node

mutual

/-- A node with all places in it moved. -/
def moved (d : Displacement) : Node → Node
  | .form operator args span => .form operator (movedAll d args) (span.moved d)
  | .list items span => .list (movedAll d items) (span.moved d)
  | .empty span => .empty (span.moved d)
  | .atom name span => .atom name (span.moved d)
  | .reference sigil name span => .reference sigil name (span.moved d)
  | .literal value span => .literal value (span.moved d)
  | .marked marker body span => .marked marker (moved d body) (span.moved d)

def movedAll (d : Displacement) : List Node → List Node
  | [] => []
  | node :: nodes => moved d node :: movedAll d nodes

end

theorem movedAll_eq_map (d : Displacement) (nodes : List Node) :
    movedAll d nodes = nodes.map (moved d) := by
  induction nodes with
  | nil => rfl
  | cons node nodes ih => rw [movedAll, ih, List.map_cons]

theorem span_moved (d : Displacement) (node : Node) : (node.moved d).span = node.span.moved d := by
  cases node <;> rfl

end Node

def SyntaxError.moved (d : Displacement) (e : SyntaxError) : SyntaxError :=
  { e with span := e.span.moved d }

def Opened.moved (d : Displacement) : Opened → Opened
  | .form start operator args => .form (start.moved d) operator (args.map (Node.moved d))
  | .list start items => .list (start.moved d) (items.map (Node.moved d))
  | .marker start mark => .marker (start.moved d) mark

/-- A state of reading with all places in it moved, and other nodes before its own. -/
def Reader.moved (d : Displacement) (base : List Node) (r : Reader) : Reader :=
  ⟨r.angle.map (Span.moved d), r.opened.map (Opened.moved d), r.nodes.map (Node.moved d) ++ base⟩

/-! ### Moving twice, and not at all -/

theorem Span.moved_zero (s : Span) : s.moved 0 = s := by
  simp [Span.moved]

theorem Span.moved_moved (d e : Displacement) (s : Span) :
    (s.moved e).moved d = s.moved (d + e) := by
  simp [Span.moved, Nat.add_assoc]

namespace Node

mutual

theorem moved_zero : ∀ node : Node, node.moved 0 = node
  | .form operator args span => by rw [moved, movedAll_zero args, span.moved_zero]
  | .list items span => by rw [moved, movedAll_zero items, span.moved_zero]
  | .empty span => by rw [moved, span.moved_zero]
  | .atom name span => by rw [moved, span.moved_zero]
  | .reference sigil name span => by rw [moved, span.moved_zero]
  | .literal value span => by rw [moved, span.moved_zero]
  | .marked marker body span => by rw [moved, moved_zero body, span.moved_zero]

theorem movedAll_zero : ∀ nodes : List Node, movedAll 0 nodes = nodes
  | [] => rfl
  | node :: nodes => by rw [movedAll, moved_zero node, movedAll_zero nodes]

end

mutual

theorem moved_moved (d e : Displacement) :
    ∀ node : Node, (node.moved e).moved d = node.moved (d + e)
  | .form operator args span => by
    rw [moved, moved, moved, movedAll_movedAll d e args, span.moved_moved]
  | .list items span => by rw [moved, moved, moved, movedAll_movedAll d e items, span.moved_moved]
  | .empty span => by rw [moved, moved, moved, span.moved_moved]
  | .atom name span => by rw [moved, moved, moved, span.moved_moved]
  | .reference sigil name span => by rw [moved, moved, moved, span.moved_moved]
  | .literal value span => by rw [moved, moved, moved, span.moved_moved]
  | .marked marker body span => by
    rw [moved, moved, moved, moved_moved d e body, span.moved_moved]

theorem movedAll_movedAll (d e : Displacement) :
    ∀ nodes : List Node, movedAll d (movedAll e nodes) = movedAll (d + e) nodes
  | [] => rfl
  | node :: nodes => by
    rw [movedAll, movedAll, movedAll, moved_moved d e node, movedAll_movedAll d e nodes]

end

end Node

/-! ### Places and tokens -/

namespace Position

theorem next_moved (d : Displacement) (p : Position) (c : Char) :
    (p.moved d).next c = (p.next c).moved d := by
  rw [next, next]
  split
  · simp only [moved, Nat.add_assoc]
  · simp only [moved, Nat.add_assoc]

theorem advance_moved (d : Displacement) (p : Position) (cs : List Char) :
    (p.moved d).advance cs = (p.advance cs).moved d := by
  induction cs generalizing p with
  | nil => rfl
  | cons c cs ih => exact (congrArg (advance · cs) (next_moved d p c)).trans (ih (p.next c))

theorem advance_cons (p : Position) (c : Char) (cs : List Char) :
    p.advance (c :: cs) = (p.next c).advance cs := rfl

theorem advance_offset (p : Position) (cs : List Char) :
    (p.advance cs).offset = p.offset + (Displacement.behind cs).bytes := by
  induction cs generalizing p with
  | nil => rfl
  | cons c cs ih =>
    have hnext : (p.next c).offset = p.offset + c.utf8Size := by
      rw [next]
      split <;> rfl
    rw [advance_cons, ih, hnext, Displacement.behind_cons_bytes, Nat.add_assoc]

theorem advance_line (p : Position) (cs : List Char) :
    (p.advance cs).line = p.line + (Displacement.behind cs).lines := by
  induction cs generalizing p with
  | nil => rfl
  | cons c cs ih =>
    rw [advance_cons, ih, next]
    by_cases hc : c = '\n'
    · simp only [hc, Displacement.behind, if_true, List.count_cons_self]
      omega
    · simp [hc, Displacement.behind]

/-- Behind whole lines, a text begins where it would stand alone, but further on. -/
theorem advance_start {cs : List Char} (h : (start.advance cs).column = 1) :
    start.advance cs = start.moved (.behind cs) := by
  have hoffset := start.advance_offset cs
  have hline := start.advance_line cs
  generalize start.advance cs = p at h hoffset hline
  cases p
  simp_all [moved, start, Nat.add_comm]

end Position

theorem Span.between_moved (d : Displacement) (p q : Position) :
    between (p.moved d) (q.moved d) = (between p q).moved d := rfl

/-- A text that is moved has the same tokens, moved. -/
theorem tokensFrom_moved (d : Displacement) (p : Position) (cs : List Char) :
    tokensFrom (p.moved d) cs = (tokensFrom p cs).map (Token.moved d) := by
  fun_induction tokensFrom p cs with
  | case1 p =>
    rw [tokensFrom, Span.between_moved]
    rfl
  | case2 p c cs hblank ih => rw [tokensFrom, if_pos hblank, Position.next_moved, ih]
  | case3 p c cs hblank scanned text q ih =>
    rw [tokensFrom, if_neg hblank]
    dsimp only
    rw [Position.advance_moved, Span.between_moved, ih, List.map_cons]
    rfl

theorem Token.lexeme_moved (d : Displacement) (t : Token) : (t.moved d).lexeme = t.lexeme := rfl

theorem Token.startsLine_moved (d : Displacement) (t : Token) :
    (t.moved d).startsLine = t.startsLine := rfl

/-! ### Reading -/

theorem Span.through_moved (d : Displacement) (first last : Span) :
    (first.moved d).through (last.moved d) = (first.through last).moved d := rfl

namespace Reader

variable (d : Displacement) (base : List Node)

theorem attach_moved (node : Node) (nodes : List Node) (opened : List Opened) :
    attach (node.moved d) (nodes.map (Node.moved d) ++ base) (opened.map (Opened.moved d)) =
      (attach node nodes opened).moved d base := by
  induction opened generalizing node with
  | nil => rfl
  | cons construct rest ih =>
    cases construct with
    | form start operator args => rfl
    | list start items => rfl
    | marker start marker =>
      rw [List.map_cons, Opened.moved, attach, attach, Node.span_moved, Span.through_moved]
      exact ih (.marked marker node (start.through node.span))

theorem acceptOperator_moved (policy : EmptyForms) (r : Reader) (start : Span) (t : Token) :
    (r.moved d base).acceptOperator policy (start.moved d) (t.moved d) =
      ((r.acceptOperator policy start t).map (moved d base)).mapError (SyntaxError.moved d) := by
  rw [acceptOperator, acceptOperator, Token.lexeme_moved]
  cases t.lexeme with
  | closeForm =>
    have hopened : (r.moved d base).opened = [] ↔ r.opened = [] := List.map_eq_nil_iff
    dsimp only
    simp only [hopened]
    split
    · rfl
    · have h := attach_moved d base (.empty (start.through t.span)) r.nodes r.opened
      exact congrArg Except.ok h
  | _ => rfl

theorem unfinished_moved (stop : Span) (opened : List Opened) :
    unfinished (stop.moved d) (opened.map (Opened.moved d)) =
      (unfinished stop opened).moved d := by
  cases opened with
  | nil => rfl
  | cons construct rest => cases construct <;> rfl

theorem acceptNode_moved (r : Reader) (t : Token) :
    (r.moved d base).acceptNode (t.moved d) =
      ((r.acceptNode t).map (moved d base)).mapError (SyntaxError.moved d) := by
  obtain ⟨angle, opened, nodes⟩ := r
  rw [acceptNode, acceptNode, Token.lexeme_moved]
  cases t.lexeme with
  | closeForm =>
    cases opened with
    | nil => rfl
    | cons construct rest =>
      cases construct with
      | form start operator args =>
        have h := attach_moved d base
          (.form operator args.reverse (start.through t.span)) nodes rest
        rw [Node.moved, Node.movedAll_eq_map, List.map_reverse] at h
        exact congrArg Except.ok h
      | list => rfl
      | marker => rfl
  | closeList =>
    cases opened with
    | nil => rfl
    | cons construct rest =>
      cases construct with
      | list start items =>
        have h := attach_moved d base (.list items.reverse (start.through t.span)) nodes rest
        rw [Node.moved, Node.movedAll_eq_map, List.map_reverse] at h
        exact congrArg Except.ok h
      | form => rfl
      | marker => rfl
  | literal value =>
    exact congrArg Except.ok (attach_moved d base (.literal value t.span) nodes opened)
  | atom name => exact congrArg Except.ok (attach_moved d base (.atom name t.span) nodes opened)
  | reference sigil name =>
    exact congrArg Except.ok (attach_moved d base (.reference sigil name t.span) nodes opened)
  | endOfInput => exact congrArg Except.error (unfinished_moved d t.span opened)
  | _ => rfl

/-- A token that is moved does the same, moved, to a state that is moved. -/
theorem accept_moved (policy : EmptyForms) (r : Reader) (t : Token) :
    (r.moved d base).accept policy (t.moved d) =
      ((r.accept policy t).map (moved d base)).mapError (SyntaxError.moved d) := by
  rw [accept, accept, Token.lexeme_moved]
  split
  · rfl
  · rw [show (r.moved d base).angle = r.angle.map (Span.moved d) from rfl]
    cases r.angle with
    | some start => exact acceptOperator_moved d base policy r start t
    | none => exact acceptNode_moved d base r t

theorem isIdle_moved (r : Reader) : (r.moved d base).isIdle = r.isIdle := by
  simp [isIdle, moved]

end Reader

/-- Reading tokens that are moved, behind other nodes and mistakes: these stay, and all that is
read is moved. -/
theorem readRecovering_moved (d : Displacement) (base : List Node) (known : List SyntaxError)
    (r : Reader) (skipping : Bool) (errors : List SyntaxError) (ts : List Token) :
    readRecovering (r.moved d base) skipping (errors.map (SyntaxError.moved d) ++ known)
        (ts.map (Token.moved d)) =
      (base.reverse ++ (readRecovering r skipping errors ts).1.map (Node.moved d),
        known.reverse ++ (readRecovering r skipping errors ts).2.map (SyntaxError.moved d)) := by
  have hstop : ∀ (r : Reader) (errors : List SyntaxError),
      ((r.moved d base).nodes.reverse, (errors.map (SyntaxError.moved d) ++ known).reverse) =
        (base.reverse ++ r.nodes.reverse.map (Node.moved d),
          known.reverse ++ errors.reverse.map (SyntaxError.moved d)) := by
    intro r errors
    simp [Reader.moved]
  -- a token and its copy further on begin a line or not alike, so both readings take one branch
  fun_induction readRecovering r skipping errors ts with
  | case1 r skipping errors => exact hstop r errors
  | case2 r skipping errors t ts hend =>
    rw [List.map_cons, readRecovering, Reader.isIdle_moved, Token.lexeme_moved, if_pos hend]
    exact hstop r errors
  | case3 r skipping errors t ts hend hskip ih =>
    rw [List.map_cons, readRecovering, Reader.isIdle_moved, Token.lexeme_moved, if_neg hend,
      Token.startsLine_moved, if_pos hskip, ih]
  | case4 r skipping errors t ts hend hskip next hnext ih =>
    rw [List.map_cons, readRecovering, Reader.isIdle_moved, Token.lexeme_moved, if_neg hend,
      Token.startsLine_moved, if_neg hskip, Reader.accept_moved, hnext]
    exact ih
  | case5 r skipping errors t ts hend hskip e herror hstart ih =>
    rw [List.map_cons, readRecovering, Reader.isIdle_moved, Token.lexeme_moved, if_neg hend,
      Token.startsLine_moved, if_neg hskip, Reader.accept_moved, herror]
    exact (if_pos hstart).trans ih
  | case6 r skipping errors t ts hend hskip e herror hstart ih =>
    rw [List.map_cons, readRecovering, Reader.isIdle_moved, Token.lexeme_moved, if_neg hend,
      Token.startsLine_moved, if_neg hskip, Reader.accept_moved, herror]
    exact (if_neg hstart).trans ih

/-! ### Lines -/

theorem Position.one_le_column_advance (cs : List Char) : 1 ≤ (start.advance cs).column := by
  cases List.eq_nil_or_concat cs with
  | inl hnil =>
    rw [hnil]
    exact Nat.le_refl 1
  | inr hlast =>
    obtain ⟨ds, c, rfl⟩ := hlast
    rw [List.concat_eq_append, advance_append, advance_cons, next]
    split
    · exact Nat.le_refl 1
    · exact Nat.le_add_left 1 _

/-- Only whole lines end where a line begins. -/
theorem Position.wholeLines_of_column {cs : List Char} (h : (start.advance cs).column = 1) :
    cs = [] ∨ ∃ ds, cs = ds ++ ['\n'] := by
  rcases List.eq_nil_or_concat cs with hnil | ⟨ds, c, rfl⟩
  · exact .inl hnil
  · have hcolumn := one_le_column_advance ds
    rw [List.concat_eq_append, advance_append, advance_cons, next] at h
    split at h
    · rename_i hc
      exact .inr ⟨ds, by rw [List.concat_eq_append, hc]⟩
    · have : (start.advance ds).column + 1 = 1 := h
      omega

theorem sourceLines_ne_nil (cs : List Char) : sourceLines cs ≠ [] := by
  cases cs with
  | nil => exact List.cons_ne_nil _ _
  | cons c cs =>
    rw [sourceLines]
    split
    · exact List.cons_ne_nil _ _
    · split <;> exact List.cons_ne_nil _ _

theorem sourceLines_cons_of_ne {c : Char} (hc : c ≠ '\n') {cs line : List Char}
    {lines : List (List Char)} (h : sourceLines cs = line :: lines) :
    sourceLines (c :: cs) = (c :: line) :: lines := by
  rw [sourceLines, if_neg hc, h]

/-- A newline ends the lines before it. -/
theorem sourceLines_append_newline (cs ds : List Char) :
    sourceLines (cs ++ '\n' :: ds) = sourceLines cs ++ sourceLines ds := by
  induction cs with
  | nil => rfl
  | cons c cs ih =>
    by_cases hc : c = '\n'
    · rw [List.cons_append, sourceLines, sourceLines, if_pos hc, if_pos hc, ih, List.cons_append]
    · obtain ⟨line, lines, hlines⟩ := List.exists_cons_of_ne_nil (sourceLines_ne_nil cs)
      rw [hlines, List.cons_append] at ih
      rw [List.cons_append, sourceLines_cons_of_ne hc ih, sourceLines_cons_of_ne hc hlines,
        List.cons_append]

theorem length_sourceLines (cs : List Char) :
    (sourceLines cs).length = cs.count '\n' + 1 := by
  induction cs with
  | nil => rfl
  | cons c cs ih =>
    by_cases hc : c = '\n'
    · rw [sourceLines, if_pos hc, List.length_cons, ih, hc, List.count_cons_self]
    · obtain ⟨line, lines, hlines⟩ := List.exists_cons_of_ne_nil (sourceLines_ne_nil cs)
      rw [sourceLines_cons_of_ne hc hlines, List.count_cons_of_ne hc, ← ih, hlines,
        List.length_cons, List.length_cons]

/-- Behind whole lines, the lines of a text have higher numbers. -/
theorem lineText_append {before : List Char} (hbefore : (Position.start.advance before).column = 1)
    (text : List Char) {line : Nat} (hline : 1 ≤ line) :
    lineText (before ++ text) ((Displacement.behind before).lines + line) = lineText text line := by
  rcases Position.wholeLines_of_column hbefore with rfl | ⟨lines, rfl⟩
  · rw [Displacement.behind_nil, Displacement.zero_lines, Nat.zero_add, List.nil_append]
  · have hlength : (sourceLines lines).length = (Displacement.behind (lines ++ ['\n'])).lines := by
      rw [length_sourceLines]
      simp [Displacement.behind]
    have hindex : (Displacement.behind (lines ++ ['\n'])).lines + line - 1 =
        (sourceLines lines).length + (line - 1) := by
      omega
    rw [lineText, lineText, List.append_assoc, List.singleton_append, sourceLines_append_newline,
      hindex, List.getElem?_append_right (Nat.le_add_right _ _), Nat.add_sub_cancel_left]

/-! ### Failures -/

/-- A fault, with the line of a mistake in a source text moved. -/
def Fault.moved (d : Displacement) : Fault → Fault
  | .unreadable fault line column text => .unreadable fault (d.lines + line) column text
  | fault => fault

def Failure.moved (d : Displacement) (f : Failure) : Failure := { f with fault := f.fault.moved d }

theorem Failure.moved_zero (f : Failure) : f.moved 0 = f := by
  obtain ⟨fault, context⟩ := f
  cases fault with
  | unreadable fault line column text => simp [moved, Fault.moved]
  | _ => rfl

theorem Failure.moved_moved (d e : Displacement) (f : Failure) :
    (f.moved e).moved d = f.moved (d + e) := by
  obtain ⟨fault, context⟩ := f
  cases fault with
  | unreadable fault line column text => simp [moved, Fault.moved, Nat.add_assoc]
  | _ => rfl

/-- A mistake in a text behind whole lines is reported with the same line, further on. -/
theorem Failure.ofSyntaxError_moved {before : List Char}
    (hbefore : (Position.start.advance before).column = 1) (text : List Char) {e : SyntaxError}
    (hline : 1 ≤ e.span.line) :
    ofSyntaxError (String.ofList (before ++ text)) (e.moved (.behind before)) =
      (ofSyntaxError (String.ofList text) e).moved (.behind before) := by
  have htext := lineText_append hbefore text hline
  simp only [ofSyntaxError, ofFault, moved, Fault.moved, String.toList_ofList, ← htext]
  rfl

end TextAdventure
