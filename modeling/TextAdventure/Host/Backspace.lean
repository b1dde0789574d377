import TextAdventure.Host.Grapheme

/-!
Backspaces in a line.

A backspace takes away the grapheme cluster kept last before it.  The size of a cluster is
remembered in one byte, so what goes is as many bytes of the text as the size of the cluster
modulo 256.

Main statements:
* `applyBackspaces` — a text with its backspaces carried out;
* `applyBackspaces_of_not_mem` — a text without backspaces stays as it is.
-/

namespace TextAdventure.Text

/-- The character that takes back what was typed before it. -/
def backspace : Char := '\x08'

/-- The characters kept and the remembered sizes of their clusters, both last first. -/
structure Typed where
  chars : List Char
  sizes : List Nat
  deriving DecidableEq, Repr

/-- The number of bytes of characters in UTF-8. -/
def encodedSize (cs : List Char) : Nat := cs.foldl (fun n c => n + c.utf8Size) 0

/-- Drops characters from the front up to a number of bytes in UTF-8. -/
def dropBytes : List Char → Nat → List Char
  | [], _ => []
  | c :: cs, n => if n = 0 then c :: cs else dropBytes cs (n - c.utf8Size)

namespace Typed

/-- Takes one more cluster. -/
def add (t : Typed) (cluster : List Char) : Typed :=
  if cluster = [backspace] then
    match t.sizes with
    | [] => t
    | size :: sizes => ⟨dropBytes t.chars size, sizes⟩
  else ⟨cluster.reverse ++ t.chars, encodedSize cluster % 256 :: t.sizes⟩

end Typed

/-- A text with its backspaces carried out. -/
def applyBackspaces (text : List Char) : List Char :=
  ((graphemes text).foldl Typed.add ⟨[], []⟩).chars.reverse

/-! ### Laws -/

theorem foldl_add_of_not_mem {clusters : List (List Char)} (h : [backspace] ∉ clusters)
    (t : Typed) :
    (clusters.foldl Typed.add t).chars = clusters.flatten.reverse ++ t.chars := by
  induction clusters generalizing t with
  | nil => simp
  | cons cluster clusters ih =>
    simp only [List.mem_cons, not_or] at h
    rw [List.foldl_cons, ih h.2, Typed.add, if_neg (Ne.symm h.1)]
    simp

theorem applyBackspaces_of_not_mem {text : List Char} (h : backspace ∉ text) :
    applyBackspaces text = text := by
  have hclusters : [backspace] ∉ graphemes text := by
    intro hmem
    apply h
    rw [← flatten_graphemes text]
    exact List.mem_flatten.2 ⟨_, hmem, List.mem_singleton.2 rfl⟩
  rw [applyBackspaces, foldl_add_of_not_mem hclusters, flatten_graphemes]
  simp

end TextAdventure.Text
