import TextAdventure.Proofs.Source.Reading

/-!
What is printed is read back.

A printed node is cut into the lexemes of the node whatever stands behind it, as long as that does
not go on with a word character: a word at the end of the node would take the character in.

* `Node.WellFormed` — the nodes that have a source text: their names are names, their atoms are no
  numbers, and they hold no number with a fractional part;
* `lexemesOf_print` — the lexemes of a printed node are those of the node;
* `wellFormed_of_sourceLexemes` — whatever is read from a text has a source text;
* `parse_print_roundTrip` — printed nodes are read as themselves.
-/

namespace TextAdventure

namespace Node

/-! ### Nodes with a source text -/

mutual

/-- A node whose atoms and operators stand for themselves, whose references and tags are names and
whose numbers are whole. -/
def WellFormed : Node → Prop
  | .form operator args _ => IsAtomName operator ∧ WellFormedAll args
  | .list items _ => WellFormedAll items
  | .empty _ => True
  | .atom name _ => IsAtomName name
  | .reference _ name _ => IsName name
  | .literal value _ => ∀ x, value ≠ .float x
  | .marked marker body _ => (∀ name, marker = .tag name → IsName name) ∧ WellFormed body

/-- Every one of the nodes is well formed. -/
def WellFormedAll : List Node → Prop
  | [] => True
  | node :: nodes => WellFormed node ∧ WellFormedAll nodes

end

/-- A node without a number that has a fractional part. -/
def FloatFree (node : Node) : Prop := ∀ x, Lexeme.literal (.float x) ∉ node.lexemes

mutual

/-- A node is well formed when all its lexemes are and none is a number with a fractional part. -/
theorem wellFormed_of_lexemes : ∀ node : Node,
    (∀ l ∈ node.lexemes, l.WellFormed ∧ ∀ x, l ≠ .literal (.float x)) → node.WellFormed
  | .form operator args span, h => by
    rw [lexemes] at h
    rw [WellFormed]
    refine ⟨(h (.atom operator) (by simp)).1, wellFormedAll_of_lexemesAll args ?_⟩
    intro l hl
    exact h l (by simp [hl])
  | .list items span, h => by
    rw [lexemes] at h
    rw [WellFormed]
    refine wellFormedAll_of_lexemesAll items ?_
    intro l hl
    exact h l (by simp [hl])
  | .empty span, _ => by
    rw [WellFormed]
    trivial
  | .atom name span, h => by
    rw [lexemes] at h
    rw [WellFormed]
    exact (h (.atom name) (by simp)).1
  | .reference sigil name span, h => by
    rw [lexemes] at h
    rw [WellFormed]
    exact (h (.reference sigil name) (by simp)).1
  | .literal value span, h => by
    rw [lexemes] at h
    rw [WellFormed]
    rintro x rfl
    exact (h (.literal (.float x)) (by simp)).2 x rfl
  | .marked marker body span, h => by
    rw [lexemes] at h
    rw [WellFormed]
    refine ⟨?_, wellFormed_of_lexemes body ?_⟩
    · rintro name rfl
      exact (h (.marker (.tag name)) (by simp)).1
    · intro l hl
      exact h l (by simp [hl])

theorem wellFormedAll_of_lexemesAll : ∀ nodes : List Node,
    (∀ l ∈ lexemesAll nodes, l.WellFormed ∧ ∀ x, l ≠ .literal (.float x)) → WellFormedAll nodes
  | [], _ => by
    rw [WellFormedAll]
    trivial
  | node :: nodes, h => by
    rw [lexemesAll] at h
    rw [WellFormedAll]
    constructor
    · refine wellFormed_of_lexemes node ?_
      intro l hl
      exact h l (List.mem_append_left _ hl)
    · refine wellFormedAll_of_lexemesAll nodes ?_
      intro l hl
      exact h l (List.mem_append_right _ hl)

end

end Node

/-! ### The lexemes of printed words -/

/-- A text that does not go on with a word character. -/
def EndsWord (rest : List Char) : Prop := ∀ c ∈ rest.head?, isWordChar c = false

theorem endsWord_nil : EndsWord [] := nofun

theorem endsWord_cons {c : Char} (hc : isWordChar c = false) (rest : List Char) :
    EndsWord (c :: rest) := by
  intro d hd
  cases hd
  exact hc

theorem takeWhile_isWordChar {word rest : List Char} (hword : ∀ c ∈ word, isWordChar c = true)
    (hrest : EndsWord rest) : (word ++ rest).takeWhile isWordChar = word := by
  rw [List.takeWhile_append_of_pos hword]
  cases rest with
  | nil => exact List.append_nil word
  | cons c cs =>
    rw [List.takeWhile_cons_of_neg (by simp [hrest c rfl])]
    exact List.append_nil word

theorem isBlank_of_startsWord {c : Char} (hc : startsWord c = true) : isBlank c = false := by
  rw [startsWord, isWordChar] at hc
  simp_all

theorem lexemesOf_word {c : Char} {cs rest : List Char} (hc : startsWord c = true)
    (hcs : ∀ d ∈ cs, isWordChar d = true) (hrest : EndsWord rest) :
    lexemesOf (c :: (cs ++ rest)) = Lexeme.ofWord (c :: cs) :: lexemesOf rest := by
  refine lexemesOf_scan (isBlank_of_startsWord hc) ?_
  rw [Lexeme.scan_of_startsWord hc, takeWhile_isWordChar hcs hrest]

theorem lexemesOf_atom {name : String} (h : IsAtomName name) {rest : List Char}
    (hrest : EndsWord rest) : lexemesOf (name.toList ++ rest) = .atom name :: lexemesOf rest := by
  obtain ⟨⟨hne, hword⟩, hmarker, hnumber⟩ := h
  obtain ⟨c, cs, hname⟩ := List.exists_cons_of_ne_nil hne
  rw [hname] at hword hmarker
  have hc : startsWord c = true := by
    rw [startsWord, hword c List.mem_cons_self, hmarker c rfl]
    rfl
  rw [hname, List.cons_append,
    lexemesOf_word hc (fun d hd => hword d (List.mem_cons_of_mem _ hd)) hrest, ← hname,
    Lexeme.ofWord_of_not_numberShaped hnumber, String.ofList_toList]

theorem startsWord_of_isDigit {c : Char} (h : isDigit c = true) : startsWord c = true := by
  have hall : ∀ n < 58, 48 ≤ n → startsWord (Char.ofNat n) = true := by decide
  rw [isDigit, Bool.and_eq_true, decide_eq_true_eq, decide_eq_true_eq] at h
  have hlow : 48 ≤ c.toNat := h.1
  have hhigh : c.toNat ≤ 57 := h.2
  rw [← Char.ofNat_toNat c]
  exact hall c.toNat (by omega) hlow

theorem isWordChar_of_isDigit {c : Char} (h : isDigit c = true) : isWordChar c = true := by
  have hc := startsWord_of_isDigit h
  rw [startsWord, Bool.and_eq_true] at hc
  exact hc.1

theorem intText_eq_cons (n : Int) : ∃ c cs, (intText n).toList = c :: cs ∧ startsWord c = true ∧
    ∀ d ∈ cs, isWordChar d = true := by
  obtain ⟨hne, hdigits⟩ := isDigits_natDigits n.natAbs
  rw [intText, String.toList_ofList]
  split
  · refine ⟨'-', natDigits n.natAbs, rfl, by decide, ?_⟩
    intro d hd
    exact isWordChar_of_isDigit (hdigits d hd)
  · obtain ⟨c, cs, hcs⟩ := List.exists_cons_of_ne_nil hne
    rw [hcs] at hdigits
    refine ⟨c, cs, hcs, startsWord_of_isDigit (hdigits c List.mem_cons_self), ?_⟩
    intro d hd
    exact isWordChar_of_isDigit (hdigits d (List.mem_cons_of_mem _ hd))

theorem lexemesOf_intText (n : Int64) {rest : List Char} (hrest : EndsWord rest) :
    lexemesOf ((intText n.toInt).toList ++ rest) = .literal (.int n) :: lexemesOf rest := by
  obtain ⟨c, cs, htext, hc, hcs⟩ := intText_eq_cons n.toInt
  rw [htext, List.cons_append, lexemesOf_word hc hcs hrest, ← htext, Lexeme.ofWord_intText]

theorem Lexeme.named_append (mark : Char) (make : String → Lexeme) {name : String}
    (h : IsName name) {rest : List Char} (hrest : EndsWord rest) :
    Lexeme.named mark make (name.toList ++ rest) = (make name, name.toList.length) := by
  rw [Lexeme.named, takeWhile_isWordChar h.2 hrest, if_neg (by simpa using h.1),
    String.ofList_toList]

theorem lexemesOf_quoted (s : String) (rest : List Char) :
    lexemesOf ((Text.quoted s).toList ++ rest) = .literal (.string s) :: lexemesOf rest := by
  have hscan : Lexeme.scan '"' (Text.escape s.toList ++ ['"'] ++ rest) =
      (.literal (.string s), (Text.escape s.toList ++ ['"']).length) := by
    rw [Lexeme.scan, List.append_assoc, List.singleton_append, Text.readQuoted_append]
    simp only [String.ofList_toList, List.length_append, List.length_cons, List.length_nil,
      Prod.mk.injEq, true_and]
    omega
  rw [Text.quoted, String.toList_ofList, List.cons_append, List.cons_append]
  exact lexemesOf_scan (by decide) hscan

/-! ### The lexemes of printed nodes -/

theorem lexemesOf_literal {value : Literal} (h : ∀ x, value ≠ .float x) {rest : List Char}
    (hrest : EndsWord rest) :
    lexemesOf (Node.printLiteral value ++ rest) = .literal value :: lexemesOf rest := by
  cases value with
  | int n => exact lexemesOf_intText n hrest
  | float x => exact absurd rfl (h x)
  | string s => exact lexemesOf_quoted s rest
  | char c => exact @lexemesOf_scan '\\' [c] rest _ (by decide) rfl

/-- A single character that is a token of its own. -/
theorem lexemesOf_single {c : Char} {l : Lexeme} (hc : isBlank c = false)
    (h : ∀ cs, Lexeme.scan c cs = (l, 0)) (rest : List Char) :
    lexemesOf (c :: rest) = l :: lexemesOf rest :=
  @lexemesOf_scan c [] rest l hc (h rest)

theorem lexemesOf_marker {marker : Marker} (h : ∀ name, marker = .tag name → IsName name)
    (rest : List Char) :
    lexemesOf (Node.printMarker marker ++ rest) = .marker marker :: lexemesOf rest := by
  cases marker with
  | quote => exact lexemesOf_single (by decide) (fun _ => rfl) rest
  | quasiquote => exact lexemesOf_single (by decide) (fun _ => rfl) rest
  | splice => exact lexemesOf_single (by decide) (fun _ => rfl) rest
  | percent => exact lexemesOf_single (by decide) (fun _ => rfl) rest
  | tag name =>
    -- without the space the tag would take in the first word of its node
    have hspace : EndsWord (' ' :: rest) := endsWord_cons (by decide) rest
    have hscan : Lexeme.scan '#' (name.toList ++ ' ' :: rest) =
        (.marker (.tag name), name.toList.length) := by
      rw [Lexeme.scan]
      exact Lexeme.named_append '#' _ (h name rfl) hspace
    rw [Node.printMarker, List.append_assoc, List.singleton_append, List.cons_append,
      lexemesOf_scan (by decide) hscan, lexemesOf_blank (by decide)]

theorem lexemesOf_reference (sigil : Sigil) {name : String} (h : IsName name) {rest : List Char}
    (hrest : EndsWord rest) :
    lexemesOf (Node.printSigil sigil :: (name.toList ++ rest)) =
      .reference sigil name :: lexemesOf rest := by
  cases sigil with
  | dot =>
    refine lexemesOf_scan (by decide) ?_
    rw [Node.printSigil, Lexeme.scan]
    exact Lexeme.named_append '.' _ h hrest
  | comma =>
    refine lexemesOf_scan (by decide) ?_
    rw [Node.printSigil, Lexeme.scan]
    exact Lexeme.named_append ',' _ h hrest

theorem endsWord_printTail (nodes : List Node) {rest : List Char} (h : EndsWord rest) :
    EndsWord (Node.printTail nodes ++ rest) := by
  cases nodes with
  | nil =>
    rw [Node.printTail]
    exact h
  | cons node nodes =>
    rw [Node.printTail]
    exact endsWord_cons (by decide) _

mutual

/-- A printed node is cut into its lexemes, and what stands behind it into its own. -/
theorem lexemesOf_print : ∀ (node : Node) (rest : List Char), node.WellFormed → EndsWord rest →
    lexemesOf (node.printChars ++ rest) = node.lexemes ++ lexemesOf rest
  | .form operator args span, rest, h, hrest => by
    rw [Node.WellFormed] at h
    -- the operator ends at the space before the first argument, or at the `>`
    have hclose : EndsWord ('>' :: rest) := endsWord_cons (by decide) rest
    rw [Node.printChars, Node.lexemes, List.append_assoc, List.singleton_append, List.append_assoc,
      List.cons_append, lexemesOf_single (by decide) (fun _ => rfl),
      lexemesOf_atom h.1 (endsWord_printTail args hclose),
      lexemesOf_printTail args ('>' :: rest) h.2 hclose,
      lexemesOf_single (by decide) (fun _ => rfl)]
    simp
  | .list items span, rest, h, hrest => by
    rw [Node.WellFormed] at h
    have hclose : EndsWord (')' :: rest) := endsWord_cons (by decide) rest
    rw [Node.printChars, Node.lexemes, List.append_assoc, List.singleton_append,
      List.cons_append, lexemesOf_single (by decide) (fun _ => rfl),
      lexemesOf_printItems items (')' :: rest) h hclose,
      lexemesOf_single (by decide) (fun _ => rfl)]
    simp
  | .empty span, rest, _, hrest => by
    rw [Node.printChars, Node.lexemes, List.cons_append,
      lexemesOf_single (by decide) (fun _ => rfl), List.singleton_append,
      lexemesOf_single (by decide) (fun _ => rfl)]
    rfl
  | .atom name span, rest, h, hrest => by
    rw [Node.WellFormed] at h
    rw [Node.printChars, Node.lexemes, lexemesOf_atom h hrest]
    rfl
  | .reference sigil name span, rest, h, hrest => by
    rw [Node.WellFormed] at h
    rw [Node.printChars, Node.lexemes, List.cons_append, lexemesOf_reference sigil h hrest]
    rfl
  | .literal value span, rest, h, hrest => by
    rw [Node.WellFormed] at h
    rw [Node.printChars, Node.lexemes, lexemesOf_literal h hrest]
    rfl
  | .marked marker body span, rest, h, hrest => by
    rw [Node.WellFormed] at h
    rw [Node.printChars, Node.lexemes, List.append_assoc, lexemesOf_marker h.1,
      lexemesOf_print body rest h.2 hrest, List.cons_append]

theorem lexemesOf_printTail : ∀ (nodes : List Node) (rest : List Char),
    Node.WellFormedAll nodes → EndsWord rest →
    lexemesOf (Node.printTail nodes ++ rest) = Node.lexemesAll nodes ++ lexemesOf rest
  | [], rest, _, hrest => by
    rw [Node.printTail, Node.lexemesAll]
    rfl
  | node :: nodes, rest, h, hrest => by
    rw [Node.WellFormedAll] at h
    rw [Node.printTail, Node.lexemesAll, List.append_assoc, List.cons_append,
      lexemesOf_blank (by decide),
      lexemesOf_print node _ h.1 (endsWord_printTail nodes hrest),
      lexemesOf_printTail nodes rest h.2 hrest, List.append_assoc]

theorem lexemesOf_printItems : ∀ (nodes : List Node) (rest : List Char),
    Node.WellFormedAll nodes → EndsWord rest →
    lexemesOf (Node.printItems nodes ++ rest) = Node.lexemesAll nodes ++ lexemesOf rest
  | [], rest, _, hrest => by
    rw [Node.printItems, Node.lexemesAll]
    rfl
  | node :: nodes, rest, h, hrest => by
    rw [Node.WellFormedAll] at h
    rw [Node.printItems, Node.lexemesAll, List.append_assoc,
      lexemesOf_print node _ h.1 (endsWord_printTail nodes hrest),
      lexemesOf_printTail nodes rest h.2 hrest, List.append_assoc]

end

/-- Nodes on lines of their own are cut into their lexemes. -/
theorem lexemesOf_printAll (nodes : List Node) (h : ∀ node ∈ nodes, node.WellFormed) :
    lexemesOf (Node.printAll nodes).toList = Node.lexemesAll nodes := by
  rw [Node.printAll]
  induction nodes with
  | nil => exact lexemesOf_nil
  | cons node nodes ih =>
    have hnode : node.WellFormed := h node List.mem_cons_self
    have ih := ih fun other hother => h other (List.mem_cons_of_mem _ hother)
    cases nodes with
    | nil =>
      have hprint := lexemesOf_print node [] hnode nofun
      rw [lexemesOf_nil, List.append_nil] at hprint
      simpa [Node.print, Node.lexemesAll] using hprint
    | cons next rest =>
      have hline : EndsWord ('\n' :: ("\n".intercalate ((next :: rest).map Node.print)).toList) :=
        endsWord_cons (by decide) _
      have hprint := lexemesOf_print node _ hnode hline
      rw [lexemesOf_blank (by decide), ih] at hprint
      rw [Node.lexemesAll, ← hprint]
      simp [Node.print]

/-! ### Printing and reading -/

theorem sourceLexemes_eq (source : String) :
    sourceLexemes source = (lexemesOf source.toList).filter (! ·.isComment) := rfl

theorem sourceLexemes_printAll (nodes : List Node) (h : ∀ node ∈ nodes, node.WellFormed) :
    sourceLexemes (Node.printAll nodes) = Node.lexemesAll nodes := by
  rw [sourceLexemes_eq, lexemesOf_printAll nodes h, List.filter_eq_self]
  intro l hl
  rw [Node.isComment_of_mem_lexemesAll nodes l hl]
  rfl

theorem sourceLexemes_print (node : Node) (h : node.WellFormed) :
    sourceLexemes node.print = node.lexemes := by
  have hall := sourceLexemes_printAll [node] (by simpa using h)
  simpa [Node.printAll, Node.lexemesAll] using hall

/-- What is made of the lexemes of a text is well formed when it holds no number with a
fractional part. -/
theorem wellFormed_of_sourceLexemes (source : String) {node : Node}
    (h : ∀ l ∈ node.lexemes, l ∈ sourceLexemes source) (hfloat : node.FloatFree) :
    node.WellFormed := by
  refine node.wellFormed_of_lexemes ?_
  intro l hl
  have hmem := h l hl
  rw [sourceLexemes_eq] at hmem
  refine ⟨lexemesOf_wellFormed source.toList l (List.mem_filter.mp hmem).1, ?_⟩
  rintro x rfl
  exact hfloat x hl

/-- A well-formed node is read back from its text, and so are well-formed nodes from a line each
when none of them is an empty form; and what is read from any text is well formed when it holds
no number with a fractional part. -/
theorem parse_print_roundTrip :
    (∀ node : Node, node.WellFormed →
      ∃ read, parseOne node.print = .ok read ∧ Node.SameTree read node) ∧
    (∀ nodes : List Node, (∀ node ∈ nodes, node.WellFormed) →
      (∀ node ∈ nodes, node.isEmptyForm = false) →
      ∃ read, parse (Node.printAll nodes) = .ok read ∧ Node.SameTrees read nodes) ∧
    (∀ source read, parseOne source = .ok read → read.FloatFree → read.WellFormed) ∧
    (∀ source nodes, parse source = .ok nodes →
      ∀ read ∈ nodes, read.FloatFree → read.WellFormed) := by
  refine ⟨?_, ?_, ?_, ?_⟩
  · intro node hnode
    refine (exists_parseOne_iff node.print node).mpr ?_
    exact sourceLexemes_print node hnode ▸ List.prefix_refl _
  · intro nodes hnodes hform
    rw [exists_parse_iff, sourceLexemes_printAll nodes hnodes]
    exact ⟨rfl, hform⟩
  · intro source read hread hfloat
    have hbegins := (exists_parseOne_iff source read).mp ⟨read, hread, rfl⟩
    refine wellFormed_of_sourceLexemes source ?_ hfloat
    intro l hl
    exact hbegins.subset hl
  · intro source nodes hnodes read hread hfloat
    obtain ⟨hlexemes, -⟩ := (exists_parse_iff source nodes).mp ⟨nodes, hnodes, rfl⟩
    refine wellFormed_of_sourceLexemes source ?_ hfloat
    intro l hl
    rw [← hlexemes, Node.lexemesAll_eq]
    exact List.mem_flatten.mpr ⟨_, List.mem_map_of_mem hread, hl⟩

/-- A form with a quoted list of every kind of leaf:
`<SETG X '(.Y #T "a\"b" \; -5 <>)>`. -/
def nestedForm : Node :=
  .form "SETG" [.atom "X" default,
    .marked .quote (.list [.reference .dot "Y" default,
      .marked (.tag "T") (.literal (.string "a\"b") default) default,
      .literal (.char ';') default, .literal (.int (-5)) default, .empty default] default)
      default] default

theorem parse_print_nestedForm : nestedForm.WellFormed ∧
    ∃ read, parseOne nestedForm.print = .ok read ∧ Node.SameTree read nestedForm := by
  have hformed : nestedForm.WellFormed := by
    have hnames : IsAtomName "SETG" ∧ IsAtomName "X" ∧ IsName "Y" ∧ IsName "T" := by decide
    simp [nestedForm, Node.WellFormed, Node.WellFormedAll, hnames]
  exact ⟨hformed, parse_print_roundTrip.1 nestedForm hformed⟩

end TextAdventure
