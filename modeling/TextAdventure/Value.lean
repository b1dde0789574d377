import TextAdventure.Source.Token
import TextAdventure.Text.Escaped
import TextAdventure.Text.Letter
import TextAdventure.World.Handle

/-!
Values of the language.

Main statements:
* `Value.same` — equality of values: names agree up to letter case, floats bit by bit, and an
  integer is never equal to a float;
* `Value.isTruthy` — only false, zero and the empty list count as false;
* `Value.display`, `Value.inspect` — a value as text for the player and for a listing.
-/

namespace TextAdventure

/-- What an expression can be worth. -/
inductive Value where
  | bool (b : Bool)
  | int (n : Int64)
  | float (x : Binary64)
  | string (s : String)
  | atom (name : String)
  | char (c : Char)
  | object (o : ObjectId)
  | table (t : TableId)
  | routine (name : String)
  | list (items : List Value)
  deriving Repr, Inhabited

namespace Value

/-- The atom with a given name, in canonical spelling. -/
def ofName (name : String) : Value := .atom (canonical name)

/-- An object, or false when there is none. -/
def ofObject? : Option ObjectId → Value
  | some o => .object o
  | none => .bool false

/-- The value of a constant in the source. -/
def ofLiteral : Literal → Value
  | .int n => .int n
  | .float x => .float x
  | .string s => .string s
  | .char c => .char c

/-- Only false, zero and the empty list count as false. -/
def isTruthy : Value → Bool
  | .bool b => b
  | .int n => n ≠ 0
  | .list items => !items.isEmpty
  | _ => true

/-- How messages call the type of a value. -/
def typeName : Value → String
  | .bool _ => "bool"
  | .int _ => "int"
  | .float _ => "float"
  | .string _ => "string"
  | .atom _ => "atom"
  | .char _ => "char"
  | .object _ => "object"
  | .table _ => "table"
  | .routine _ => "routine"
  | .list _ => "list"

/-! ### Equality -/

mutual

/-- Equality of values. -/
def same : Value → Value → Bool
  | .bool a, .bool b => a == b
  | .int a, .int b => a == b
  | .float a, .float b => a == b
  | .string a, .string b => a == b
  | .atom a, .atom b => sameLetters a b
  | .char a, .char b => a == b
  | .object a, .object b => a == b
  | .table a, .table b => a == b
  | .routine a, .routine b => sameLetters a b
  | .list a, .list b => sameAll a b
  | _, _ => false

/-- Equality item by item. -/
def sameAll : List Value → List Value → Bool
  | [], [] => true
  | a :: as, b :: bs => same a b && sameAll as bs
  | _, _ => false

end

/-! ### Views -/

def int? : Value → Option Int64
  | .int n => some n
  | _ => none

/-- The number nearest to a numeric value. -/
def number? : Value → Option Binary64
  | .int n => some (Binary64.ofInt n.toInt)
  | .float x => some x
  | _ => none

def string? : Value → Option String
  | .string s => some s
  | _ => none

def atom? : Value → Option String
  | .atom name => some name
  | _ => none

def object? : Value → Option ObjectId
  | .object o => some o
  | _ => none

def table? : Value → Option TableId
  | .table t => some t
  | _ => none

def items? : Value → Option (List Value)
  | .list items => some items
  | _ => none

/-! ### Text -/

/-- The text of a value without parts, for a listing. -/
def inspectSimple : Value → String
  | .bool b => if b then "true" else "false"
  | .int n => intText n.toInt
  | .float x => x.text
  | .string s => Text.escaped s
  | .atom name => name
  | .char c => String.ofList ['\\', c]
  | .object o => "ObjectId(" ++ intText o.index ++ ")"
  | .table t => "TableId(" ++ intText t.index ++ ")"
  | .routine name => "<routine " ++ name ++ ">"
  | .list _ => ""

mutual

/-- The text of a value for a listing: strings are quoted. -/
def inspect : Value → String
  | .list items => "(" ++ " ".intercalate (inspectAll items) ++ ")"
  | value => inspectSimple value

/-- The texts of values for a listing. -/
def inspectAll : List Value → List String
  | [] => []
  | value :: values => inspect value :: inspectAll values

end

mutual

/-- The text of a value for the player: strings and characters stand for themselves, true is
`T` and false is `<>`. -/
def display : Value → String
  | .bool b => if b then "T" else "<>"
  | .string s => s
  | .char c => c.toString
  | .list items => "(" ++ " ".intercalate (displayAll items) ++ ")"
  | value => inspectSimple value

/-- The texts of values for the player. -/
def displayAll : List Value → List String
  | [] => []
  | value :: values => display value :: displayAll values

end

end Value

instance : BEq Value := ⟨Value.same⟩

end TextAdventure
