import Mathlib.Data.Prod.Lex
import TextAdventure.Proofs.Source.Displacement

/-!
Where tokens and mistakes stand.

Places are in the order of lines and, within a line, of columns.  The tokens of a text are in that
order, and a mistake is at the token that is refused or where a construct that is still open begins.

* `tokensFrom_split` — the tokens from one of them on are those of the text from its place on;
* `place_le_of_tokensFrom_eq` — tokens are in the order of their places;
* `Reader.openSpans_accept` — a token leaves open what was open before, or what it opens;
* `Reader.Refusal` — what a token does that is refused;
* `Reader.span_of_accept_eq_error` — where a mistake is.
-/

namespace TextAdventure

/-! ### The order of places -/

/-- Lines come first, then columns. -/
def Position.place (p : Position) : Nat ×ₗ Nat := toLex (p.line, p.column)

def Span.place (s : Span) : Nat ×ₗ Nat := toLex (s.line, s.column)

theorem Position.place_le_next (p : Position) (c : Char) : p.place ≤ (p.next c).place := by
  rw [place, place, Prod.Lex.toLex_le_toLex, next]
  split
  · exact .inl (Nat.lt_succ_self _)
  · exact .inr ⟨rfl, Nat.le_succ _⟩

theorem Position.place_le_advance (p : Position) (cs : List Char) :
    p.place ≤ (p.advance cs).place := by
  induction cs generalizing p with
  | nil => exact le_refl _
  | cons c cs ih => exact (p.place_le_next c).trans (ih (p.next c))

theorem Span.moved_place_le {d : Displacement} {s s' : Span} (h : s.place ≤ s'.place) :
    (s.moved d).place ≤ (s'.moved d).place := by
  rw [place, place, Prod.Lex.toLex_le_toLex] at h ⊢
  simp only [moved]
  omega

theorem Span.place_moved_le {d : Displacement} {p : Position} {s : Span} (h : p.place ≤ s.place) :
    (p.moved d).place ≤ (s.moved d).place := by
  rw [Position.place, place, Prod.Lex.toLex_le_toLex] at h ⊢
  simp only [moved, Position.moved]
  omega

/-- A token begins at a place. -/
def Token.BeginsAt (t : Token) (p : Position) : Prop := ∃ q, t.span = Span.between p q

theorem Token.BeginsAt.place_eq {t : Token} {p : Position} (h : t.BeginsAt p) :
    t.span.place = p.place := by
  obtain ⟨q, hspan⟩ := h
  rw [hspan]
  rfl

/-- The tokens of a text from one of them on are the tokens of the text from its place on. -/
theorem tokensFrom_split {p : Position} {cs : List Char} {ts us : List Token} {u : Token}
    (h : tokensFrom p cs = ts ++ u :: us) :
    ∃ before after, cs = before ++ after ∧ tokensFrom (p.advance before) after = u :: us ∧
      u.BeginsAt (p.advance before) ∧ (ts ≠ [] → before ≠ []) := by
  fun_induction tokensFrom p cs generalizing ts with
  | case1 p =>
    obtain ⟨rfl, heq⟩ := List.append_eq_singleton_iff.mp h.symm |>.resolve_right (by simp)
    cases heq
    refine ⟨[], [], rfl, ?_, ⟨p, rfl⟩, fun h => absurd rfl h⟩
    rw [Position.advance, List.foldl_nil, tokensFrom]
  | case2 p c cs hblank ih =>
    obtain ⟨before, after, rfl, htokens, hbegins, -⟩ := ih h
    exact ⟨c :: before, after, rfl, htokens, hbegins, fun _ => List.cons_ne_nil _ _⟩
  | case3 p c cs hblank scanned text q =>
    rename_i ih
    cases ts with
    | nil =>
      obtain ⟨rfl, rfl⟩ := List.cons.inj h
      refine ⟨[], c :: cs, rfl, ?_, ⟨q, rfl⟩, fun h => absurd rfl h⟩
      rw [Position.advance, List.foldl_nil, tokensFrom, if_neg hblank]
    | cons t ts =>
      obtain ⟨-, hrest⟩ := List.cons.inj h
      obtain ⟨before, after, hsplit, htokens, hbegins, -⟩ := ih hrest
      have hcs : c :: cs = text ++ before ++ after := by
        rw [List.append_assoc, ← hsplit, List.cons_append, List.take_append_drop]
      refine ⟨text ++ before, after, hcs, ?_, ?_, fun _ => ?_⟩
      · rw [Position.advance_append]
        exact htokens
      · rw [Position.advance_append]
        exact hbegins
      · exact List.cons_ne_nil _ _

theorem place_le_of_mem_tokensFrom {p : Position} {cs : List Char} {t : Token}
    (h : t ∈ tokensFrom p cs) : p.place ≤ t.span.place := by
  obtain ⟨ts, us, hsplit⟩ := List.append_of_mem h
  obtain ⟨before, -, -, -, hbegins, -⟩ := tokensFrom_split hsplit
  rw [hbegins.place_eq]
  exact p.place_le_advance before

/-- Tokens are in the order of their places. -/
theorem place_le_of_tokensFrom_eq {p : Position} {cs : List Char} {ts us : List Token} {u : Token}
    (h : tokensFrom p cs = ts ++ u :: us) {t : Token} (ht : t ∈ ts) :
    t.span.place ≤ u.span.place := by
  obtain ⟨pre, post, rfl⟩ := List.append_of_mem ht
  rw [List.append_assoc, List.cons_append] at h
  obtain ⟨before, after, -, htokens, hbegins, -⟩ := tokensFrom_split h
  rw [hbegins.place_eq]
  have hmem : u ∈ tokensFrom (p.advance before) after := by
    rw [htokens]
    simp
  exact place_le_of_mem_tokensFrom hmem

theorem lexeme_ne_endOfInput_of_tokensFrom_eq {p : Position} {cs : List Char} {ts us : List Token}
    {u : Token} (h : tokensFrom p cs = ts ++ u :: us) {t : Token} (ht : t ∈ ts) :
    t.lexeme ≠ .endOfInput := by
  obtain ⟨body, last, htokens, -, hbody⟩ := tokensFrom_eq_append p cs
  have hbegin : ts <+: body := by
    have hwhole : ts <+: body ++ [last] := ⟨u :: us, by rw [← htokens, h]⟩
    rcases List.prefix_concat_iff.mp hwhole with hall | hbefore
    · have hlength := congrArg List.length (h.symm.trans htokens)
      rw [hall] at hlength
      simp at hlength
    · exact hbefore
  intro hend
  have hformed := hbody t (hbegin.subset ht)
  rw [hend] at hformed
  exact hformed

/-! ### Where a mistake stands -/

namespace Reader

/-- Where the open constructs begin. -/
def openSpans (r : Reader) : List Span := r.angle.toList ++ r.opened.map Opened.start

theorem openSpans_attach {node : Node} {nodes : List Node} {opened : List Opened} {s : Span}
    (h : s ∈ (attach node nodes opened).openSpans) : s ∈ opened.map Opened.start := by
  induction opened generalizing node with
  | nil => exact h
  | cons construct rest ih =>
    cases construct with
    | form start operator args => exact h
    | list start items => exact h
    | marker start mark => exact List.mem_cons_of_mem _ (ih h)

/-- A token leaves open what was open before, or what it opens. -/
theorem openSpans_accept {policy : EmptyForms} {r r' : Reader} {t : Token}
    (h : r.accept policy t = .ok r') {s : Span} (hs : s ∈ r'.openSpans) :
    s ∈ r.openSpans ∨ s = t.span := by
  cases step_of_accept h with
  | comment => exact .inl hs
  | openForm => exact (List.mem_cons.mp hs).symm
  | openList => exact (List.mem_cons.mp hs).symm
  | marker => exact (List.mem_cons.mp hs).symm
  | operator => exact .inl hs
  | empty => exact .inl (List.mem_cons_of_mem _ (openSpans_attach hs))
  | close => exact .inl (List.mem_cons_of_mem _ (openSpans_attach hs))
  | leaf => exact .inl (openSpans_attach hs)

theorem openSpans_acceptAll {policy : EmptyForms} {r r' : Reader} {ts : List Token}
    (h : r.acceptAll policy ts = .ok r') {s : Span} (hs : s ∈ r'.openSpans) :
    s ∈ r.openSpans ∨ ∃ t ∈ ts, s = t.span := by
  induction ts generalizing r with
  | nil =>
    cases h
    exact .inl hs
  | cons t ts ih =>
    obtain ⟨next, hnext, hrest⟩ := acceptAll_cons_eq_ok h
    rcases ih hrest with hopen | ⟨u, hu, hspan⟩
    · rcases openSpans_accept hnext hopen with hold | hnew
      · exact .inl hold
      · exact .inr ⟨t, List.mem_cons_self, hnew⟩
    · exact .inr ⟨u, List.mem_cons_of_mem _ hu, hspan⟩

end Reader

/-- Whether a mistake is that something is open at the end of the text. -/
def SyntaxFault.isUnfinished : SyntaxFault → Bool
  | .unterminatedForm | .unterminatedList | .missingOperand _ => true
  | _ => false

namespace Reader

/-- What a token does that is refused: it is a mistake itself, it makes an empty form where none may
stand, or it is the end of the text while something is open. -/
inductive Refusal (t : Token) : Reader → SyntaxError → Prop
  | here {r : Reader} {fault : SyntaxFault} (hfault : fault.isUnfinished = false) :
      Refusal t r ⟨fault, t.span⟩
  | emptyForm {start : Span} {opened : List Opened} {nodes : List Node} :
      Refusal t ⟨some start, opened, nodes⟩ ⟨.emptyForm, start⟩
  | angle {start : Span} {opened : List Opened} {nodes : List Node} (ht : t.lexeme = .endOfInput) :
      Refusal t ⟨some start, opened, nodes⟩ ⟨.unterminatedForm, start⟩
  | form {start : Span} {operator : String} {args : List Node} {rest : List Opened}
      {nodes : List Node} (ht : t.lexeme = .endOfInput) :
      Refusal t ⟨none, .form start operator args :: rest, nodes⟩ ⟨.unterminatedForm, start⟩
  | list {start : Span} {items : List Node} {rest : List Opened} {nodes : List Node}
      (ht : t.lexeme = .endOfInput) :
      Refusal t ⟨none, .list start items :: rest, nodes⟩ ⟨.unterminatedList, start⟩
  | marker {start : Span} {mark : Marker} {rest : List Opened} {nodes : List Node}
      (ht : t.lexeme = .endOfInput) :
      Refusal t ⟨none, .marker start mark :: rest, nodes⟩ ⟨.missingOperand mark, start⟩

theorem refusal_of_accept {policy : EmptyForms} {r : Reader} {t : Token} {e : SyntaxError}
    (h : r.accept policy t = .error e) : Refusal t r e := by
  obtain ⟨angle, opened, nodes⟩ := r
  rw [accept] at h
  split at h
  · cases h
  split at h
  · rename_i start hangle
    cases hangle
    rw [acceptOperator] at h
    split at h
    · split at h
      · cases h
        exact .emptyForm
      · cases h
    · cases h
    · cases h
      exact .here rfl
    · rename_i ht
      cases h
      exact .angle ht
    · cases h
      exact .here rfl
  · rename_i hangle
    cases hangle
    rw [acceptNode] at h
    split at h
    case h_4 =>
      split at h
      · cases h
      · cases h
        exact .here rfl
    case h_5 =>
      split at h
      · cases h
      · cases h
        exact .here rfl
    case h_10 =>
      cases h
      exact .here rfl
    case h_11 ht =>
      cases h
      cases opened with
      | nil => exact .here rfl
      | cons construct rest =>
        cases construct with
        | form => exact .form ht
        | list => exact .list ht
        | marker => exact .marker ht
    all_goals cases h

/-- A mistake is at the token that is refused or where an open construct begins. -/
theorem span_of_accept_eq_error {policy : EmptyForms} {r : Reader} {t : Token} {e : SyntaxError}
    (h : r.accept policy t = .error e) : e.span = t.span ∨ e.span ∈ r.openSpans := by
  cases refusal_of_accept h with
  | here => exact .inl rfl
  | _ => exact .inr List.mem_cons_self

end Reader

end TextAdventure
