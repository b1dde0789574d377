import TextAdventure.Text.Printable

/-!
Strings in a listing.

A listing shows a string between double quotes.  Quotes, backslashes and the usual control
characters are written with a backslash and a letter, and every other character that cannot be
shown by its code point.

Main statements:
* `escaped` — the text of a string in a listing.
-/

namespace TextAdventure.Text

/-- The escape that names a character by its code point in lower-case hexadecimal. -/
def codePointEscape (c : Char) : List Char :=
  ['\\', 'u', '\x7b'] ++ Nat.toDigits 16 c.toNat ++ ['\x7d']

/-- One character of a string in a listing. -/
def escapedChar (c : Char) : List Char :=
  match c with
  | '\x00' => ['\\', '0']
  | '\t' => ['\\', 't']
  | '\r' => ['\\', 'r']
  | '\n' => ['\\', 'n']
  | '"' => ['\\', '"']
  | '\\' => ['\\', '\\']
  | _ => if isShown c then [c] else codePointEscape c

/-- A string in a listing. -/
def escaped (s : String) : String := String.ofList ('"' :: s.toList.flatMap escapedChar ++ ['"'])

end TextAdventure.Text
