import TextAdventure.Host.GraphemeClass

/-!
Grapheme clusters: what a reader takes for one character.

A text is cut into extended grapheme clusters.  Whether a character goes on with a cluster depends
on its class and on the classes of the characters of the cluster so far.

Main statements:
* `graphemes` — the clusters of a text, in order;
* `flatten_graphemes` — the clusters of a text make up the text;
* `graphemes_ne_nil_of_mem` — no cluster is empty.
-/

namespace TextAdventure.Text

open GraphemeClass

/-! ### Where clusters go on -/

/-- Whether a consonant is joined to a cluster, given last first: only marks stand between it and a
consonant, one of them a linker. -/
def endsInLink (soFar : List Char) : Bool :=
  let isMarkChar (c : Char) : Bool := (ofChar c).isConjunctMark
  (soFar.takeWhile isMarkChar).any (fun c => ofChar c = .linker) &&
    (soFar.dropWhile isMarkChar).head?.any (fun c => ofChar c = .consonant)

/-- Whether characters, given last first, end in a pictograph with its marks. -/
def endsInPictograph (soFar : List Char) : Bool :=
  (soFar.dropWhile fun c => (ofChar c).isExtend).head?.any (fun c => ofChar c = .pictograph)

/-- Whether an even number of regional indicators ends the characters, given last first. -/
def endsInWholeFlags (soFar : List Char) : Bool :=
  (soFar.takeWhile fun c => ofChar c = .regional).length % 2 = 0

/-- Whether a character goes on with the cluster of the characters so far, given last first.  Two
regional indicators make one flag, pictographs are joined by a joiner, and consonants by a
linker. -/
def joins : List Char → Char → Bool
  | [], _ => false
  | last :: before, c =>
    let a := ofChar last
    let b := ofChar c
    if a = .carriageReturn ∧ b = .lineFeed then true
    else if a.standsAlone || b.standsAlone then false
    else
      b.isMark || a = .prepended || hangulJoins a b ||
        (b = .consonant && endsInLink (last :: before)) ||
        (a = .joiner && b = .pictograph && endsInPictograph before) ||
        (a = .regional && b = .regional && endsInWholeFlags before)

/-! ### Clusters -/

/-- The clusters of a text that goes on after the cluster `current`, which is given last first. -/
def graphemesFrom (current : List Char) : List Char → List (List Char)
  | [] => [current.reverse]
  | c :: cs =>
    if joins current c then graphemesFrom (c :: current) cs
    else current.reverse :: graphemesFrom [c] cs

/-- The clusters of a text, in order. -/
def graphemes : List Char → List (List Char)
  | [] => []
  | c :: cs => graphemesFrom [c] cs

/-! ### Laws -/

theorem flatten_graphemesFrom (current cs : List Char) :
    (graphemesFrom current cs).flatten = current.reverse ++ cs := by
  induction cs generalizing current with
  | nil => simp [graphemesFrom]
  | cons c cs ih =>
    rw [graphemesFrom]
    split
    · simp [ih]
    · simp [ih]

/-- Cutting a text into clusters loses nothing. -/
theorem flatten_graphemes (cs : List Char) : (graphemes cs).flatten = cs := by
  cases cs with
  | nil => rfl
  | cons c cs => simp [graphemes, flatten_graphemesFrom]

theorem graphemesFrom_ne_nil_of_mem {current cs cluster : List Char} (h : current ≠ [])
    (hmem : cluster ∈ graphemesFrom current cs) : cluster ≠ [] := by
  induction cs generalizing current with
  | nil => simp_all [graphemesFrom]
  | cons c cs ih =>
    rw [graphemesFrom] at hmem
    split at hmem
    · exact ih (by simp) hmem
    · rcases List.mem_cons.1 hmem with rfl | hmem
      · simpa using h
      · exact ih (by simp) hmem

/-- No cluster is empty. -/
theorem graphemes_ne_nil_of_mem {cs cluster : List Char} (hmem : cluster ∈ graphemes cs) :
    cluster ≠ [] := by
  cases cs with
  | nil => simp [graphemes] at hmem
  | cons c cs => exact graphemesFrom_ne_nil_of_mem (by simp) hmem

end TextAdventure.Text
