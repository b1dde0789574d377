/-!
Blank characters and the words between them.

A character is blank when it has the Unicode property `White_Space`.

Main statements:
* `isBlank_of_isWhitespace` — every blank of the core library is a blank here;
* `splitBy_ne_nil` — a text has at least one field.
-/

namespace TextAdventure

/-- The code points with the Unicode property `White_Space`. -/
def isBlank (c : Char) : Bool :=
  let n := c.toNat
  (9 ≤ n && n ≤ 13) || n == 0x20 || n == 0x85 || n == 0xA0 || n == 0x1680 ||
    (0x2000 ≤ n && n ≤ 0x200A) || n == 0x2028 || n == 0x2029 || n == 0x202F ||
    n == 0x205F || n == 0x3000

/-- The fields of a text: the pieces between separators, in order, empty ones included. -/
def splitBy (separator : Char → Bool) : List Char → List (List Char)
  | [] => [[]]
  | c :: cs =>
    if separator c then
      [] :: splitBy separator cs
    else
      match splitBy separator cs with
      | [] => [[c]]
      | field :: fields => (c :: field) :: fields

/-- The maximal runs of characters that are not blank. -/
def blankSeparated (cs : List Char) : List (List Char) :=
  (splitBy isBlank cs).filter (! ·.isEmpty)

/-- The text without the blanks at its two ends. -/
def trim (s : String) : String :=
  String.ofList ((s.toList.dropWhile isBlank).reverse.dropWhile isBlank).reverse

/-! ### Laws -/

theorem isBlank_of_isWhitespace {c : Char} (h : c.isWhitespace = true) : isBlank c = true := by
  simp only [Char.isWhitespace, Bool.or_eq_true, decide_eq_true_eq, or_assoc] at h
  rcases h with rfl | rfl | rfl | rfl <;> rfl

theorem splitBy_ne_nil (separator : Char → Bool) (cs : List Char) :
    splitBy separator cs ≠ [] := by
  cases cs with
  | nil => simp [splitBy]
  | cons c cs =>
    rw [splitBy]
    split
    · simp
    · split <;> simp

end TextAdventure
