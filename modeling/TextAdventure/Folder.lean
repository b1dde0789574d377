import TextAdventure.Text.Blank

/-!
Files held in memory.

A path is followed name by name from the working directory, or from the root if it begins with a
slash.  The first name that cannot be followed decides what the problem is.

Main statements:
* `FileProblem` — why a file cannot be read;
* `Folder.read` — the text of the file at a path;
* `Folder.read_emptyPath` — nothing lies at the empty path;
* `Folder.textAt?_write` — a file that was written has the text written last.
-/

namespace TextAdventure

/-- Why a file cannot be read. -/
inductive FileProblem where
  | missing
  | notDirectory
  | isDirectory
  | nameTooLong
  deriving DecidableEq, Repr

namespace FileProblem

/-- The report of a problem, with its code. -/
def message : FileProblem → String
  | .missing => "No such file or directory (os error 2)"
  | .notDirectory => "Not a directory (os error 20)"
  | .isDirectory => "Is a directory (os error 21)"
  | .nameTooLong => "File name too long (os error 36)"

/-- The problem with a code. -/
def ofCode? : Nat → Option FileProblem
  | 2 => some .missing
  | 20 => some .notDirectory
  | 21 => some .isDirectory
  | 36 => some .nameTooLong
  | _ => none

end FileProblem

/-- Files with their texts, the last one added first, each under the names that lead to it from the
root, and the names that lead to the working directory. -/
structure Folder where
  home : List String
  files : List (List String × String)
  deriving DecidableEq, Repr

namespace Folder

/-- The most bytes that one name may have. -/
def nameLimit : Nat := 255

/-- The most bytes that a path may have. -/
def pathLimit : Nat := 4095

/-- The names that a path is made of, between its slashes. -/
def pathNames (path : String) : List String :=
  (splitBy (· == '/') path.toList).map String.ofList

/-- A working directory without files. -/
def empty (home : List String) : Folder := ⟨home, []⟩

/-- Writes a file in the working directory, in place of one of the same name. -/
def write (f : Folder) (path text : String) : Folder :=
  { f with files := (f.home ++ pathNames path, text) :: f.files }

/-- The text of the file at a place. -/
def textAt? (f : Folder) (place : List String) : Option String := f.files.lookup place

/-- Whether a place is a directory: the root, one on the way to the working directory, or one on
the way to a file. -/
def isDirectory (f : Folder) (place : List String) : Bool :=
  place.isEmpty || place.isPrefixOf f.home ||
    f.files.any fun file => place.isPrefixOf file.1 && place.length < file.1.length

/-- Follows one name of a path.  An empty name and a dot stay where they are, and two dots go
back. -/
def follow (f : Folder) (place : List String) (name : String) :
    Except FileProblem (List String) :=
  if !f.isDirectory place then .error .notDirectory
  else if name = "" || name = "." then .ok place
  else if name = ".." then .ok place.dropLast
  else if nameLimit < name.utf8ByteSize then .error .nameTooLong
  else
    let next := place ++ [name]
    if (f.textAt? next).isSome || f.isDirectory next then .ok next else .error .missing

/-- The text of the file at a path. -/
def read (f : Folder) (path : String) : Except FileProblem String :=
  if path.isEmpty then .error .missing
  else if pathLimit < path.utf8ByteSize then .error .nameTooLong
  else
    let start := if path.toList.head? = some '/' then [] else f.home
    match (pathNames path).foldlM f.follow start with
    | .error problem => .error problem
    | .ok place =>
      match f.textAt? place with
      | some text => .ok text
      | none => .error .isDirectory

/-! ### Laws -/

theorem read_emptyPath (f : Folder) : f.read "" = .error .missing := by
  simp [read]

theorem textAt?_write (f : Folder) (path text : String) :
    (f.write path text).textAt? (f.home ++ pathNames path) = some text := by
  simp [textAt?, write]

end Folder

end TextAdventure
