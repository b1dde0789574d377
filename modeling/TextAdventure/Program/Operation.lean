import TextAdventure.NameMap
import TextAdventure.Text.Letter

/-!
The operations of the language.

An operation is what a form can do without a routine.  Each has a name of its own, some have
further names, and each asks for a least number of arguments.

Main statements:
* `Operation` — the operations, by what they deal with;
* `Operation.name`, `Operation.minimum` — own name and least number of arguments;
* `Registry.standard` — every name under which an operation can be called.
-/

namespace TextAdventure

/-- Arithmetic that combines any number of arguments from left to right. -/
inductive FoldOp where
  | add
  | sub
  | mul
  | div
  deriving DecidableEq, Repr

/-- The smaller or the larger end of some numbers. -/
inductive Extreme where
  | least
  | greatest
  deriving DecidableEq, Repr

/-- How two numbers may lie to each other. -/
inductive Order where
  | less
  | greater
  | atMost
  | atLeast
  deriving DecidableEq, Repr

/-- Choice, repetition and leaving. -/
inductive ControlOp where
  | cond
  | all
  | any
  | negate
  | loop
  | block
  | leave
  | succeed
  | refuse
  | apply
  deriving DecidableEq, Repr

/-- Variables, named literally. -/
inductive VariableOp where
  | assign
  | assignGlobal
  | value
  | localValue
  | globalValue
  | isAssigned
  deriving DecidableEq, Repr

/-- Numbers. -/
inductive ArithmeticOp where
  | fold (op : FoldOp)
  | remainder
  | extreme (which : Extreme)
  | absolute
  | random
  | chance
  deriving DecidableEq, Repr

/-- Comparison. -/
inductive CompareOp where
  | equal
  | differ
  | order (which : Order)
  | isZero
  | isOne
  deriving DecidableEq, Repr

/-- Objects, their flags, properties and places, and what the command is about. -/
inductive ObjectOp where
  | setFlag
  | clearFlag
  | hasFlag
  | getProperty
  | putProperty
  | move
  | remove
  | parent
  | isIn
  | firstChild
  | nextSibling
  | isHeld
  | isVerb
  | isDirect
  | isIndirect
  deriving DecidableEq, Repr

/-- Text for the player, and the wish to stop. -/
inductive OutputOp where
  | tell
  | print
  | printText
  | describe
  | number
  | character
  | newline
  | quit
  deriving DecidableEq, Repr

/-- Tables. -/
inductive TableOp where
  | make
  | makeCounted
  | fill
  | get
  | getByte
  | put
  | putByte
  deriving DecidableEq, Repr

/-- What a form can do without a routine. -/
inductive Operation where
  | control (op : ControlOp)
  | binding (op : VariableOp)
  | arithmetic (op : ArithmeticOp)
  | compare (op : CompareOp)
  | object (op : ObjectOp)
  | output (op : OutputOp)
  | table (op : TableOp)
  deriving DecidableEq, Repr

/-! ### Names and arities -/

def FoldOp.name : FoldOp → String
  | .add => "+"
  | .sub => "-"
  | .mul => "*"
  | .div => "/"

def Extreme.name : Extreme → String
  | .least => "MIN"
  | .greatest => "MAX"

def ControlOp.name : ControlOp → String
  | .cond => "COND"
  | .all => "AND"
  | .any => "OR"
  | .negate => "NOT"
  | .loop => "REPEAT"
  | .block => "PROG"
  | .leave => "RETURN"
  | .succeed => "RTRUE"
  | .refuse => "RFALSE"
  | .apply => "APPLY"

def VariableOp.name : VariableOp → String
  | .assign => "SET"
  | .assignGlobal => "SETG"
  | .value => "VALUE"
  | .localValue => "LVAL"
  | .globalValue => "GVAL"
  | .isAssigned => "ASSIGNED?"

def ArithmeticOp.name : ArithmeticOp → String
  | .fold op => op.name
  | .remainder => "MOD"
  | .extreme which => which.name
  | .absolute => "ABS"
  | .random => "RANDOM"
  | .chance => "PROB"

def CompareOp.name : CompareOp → String
  | .equal => "EQUAL?"
  | .differ => "N==?"
  | .order .less => "LESS?"
  | .order .greater => "GRTR?"
  | .order .atMost => "L=?"
  | .order .atLeast => "G=?"
  | .isZero => "ZERO?"
  | .isOne => "1?"

def ObjectOp.name : ObjectOp → String
  | .setFlag => "FSET"
  | .clearFlag => "FCLEAR"
  | .hasFlag => "FSET?"
  | .getProperty => "GETP"
  | .putProperty => "PUTP"
  | .move => "MOVE"
  | .remove => "REMOVE"
  | .parent => "LOC"
  | .isIn => "IN?"
  | .firstChild => "FIRST?"
  | .nextSibling => "NEXT?"
  | .isHeld => "HELD?"
  | .isVerb => "VERB?"
  | .isDirect => "PRSO?"
  | .isIndirect => "PRSI?"

def OutputOp.name : OutputOp → String
  | .tell => "TELL"
  | .print => "PRINT"
  | .printText => "PRINTI"
  | .describe => "PRINTD"
  | .number => "PRINTN"
  | .character => "PRINTC"
  | .newline => "CRLF"
  | .quit => "QUIT"

def TableOp.name : TableOp → String
  | .make => "TABLE"
  | .makeCounted => "LTABLE"
  | .fill => "ITABLE"
  | .get => "GET"
  | .getByte => "GETB"
  | .put => "PUT"
  | .putByte => "PUTB"

/-- The own name of an operation. -/
def Operation.name : Operation → String
  | .control op => op.name
  | .binding op => op.name
  | .arithmetic op => op.name
  | .compare op => op.name
  | .object op => op.name
  | .output op => op.name
  | .table op => op.name

/-- How many arguments an operation asks for at least. -/
def Operation.minimum : Operation → Nat
  | .control .negate => 1
  | .control .apply => 1
  | .control _ => 0
  | .binding .assign => 2
  | .binding .assignGlobal => 2
  | .binding _ => 1
  | .arithmetic (.fold .add) => 0
  | .arithmetic (.fold .mul) => 0
  | .arithmetic .remainder => 2
  | .arithmetic _ => 1
  | .compare .isZero => 1
  | .compare .isOne => 1
  | .compare _ => 2
  | .object .putProperty => 3
  | .object .setFlag => 2
  | .object .clearFlag => 2
  | .object .hasFlag => 2
  | .object .getProperty => 2
  | .object .move => 2
  | .object .isIn => 2
  | .object _ => 1
  | .output .tell => 0
  | .output .newline => 0
  | .output .quit => 0
  | .output _ => 1
  | .table .make => 0
  | .table .makeCounted => 0
  | .table .fill => 1
  | .table .get => 2
  | .table .getByte => 2
  | .table .put => 3
  | .table .putByte => 3

/-! ### The names of operations -/

/-- Operations by the names under which forms call them. -/
abbrev Registry := NameMap Operation

namespace Registry

/-- Every operation, once. -/
def operations : List Operation :=
  [.cond, .all, .any, .negate, .loop, .block, .leave, .succeed, .refuse, .apply].map
      Operation.control ++
  [.assign, .assignGlobal, .value, .localValue, .globalValue, .isAssigned].map
      Operation.binding ++
  [.fold .add, .fold .sub, .fold .mul, .fold .div, .remainder, .extreme .least,
      .extreme .greatest, .absolute, .random, .chance].map Operation.arithmetic ++
  [.equal, .differ, .order .less, .order .greater, .order .atMost, .order .atLeast, .isZero,
      .isOne].map Operation.compare ++
  [.setFlag, .clearFlag, .hasFlag, .getProperty, .putProperty, .move, .remove, .parent, .isIn,
      .firstChild, .nextSibling, .isHeld, .isVerb, .isDirect, .isIndirect].map
      Operation.object ++
  [.tell, .print, .printText, .describe, .number, .character, .newline, .quit].map
      Operation.output ++
  [.make, .makeCounted, .fill, .get, .getByte, .put, .putByte].map Operation.table

/-- The further names that some operations have. -/
def aliases : List (String × Operation) :=
  [("ADD", .arithmetic (.fold .add)), ("SUB", .arithmetic (.fold .sub)),
    ("MUL", .arithmetic (.fold .mul)), ("DIV", .arithmetic (.fold .div)),
    ("==?", .compare .equal), ("=?", .compare .equal), ("N=?", .compare .differ),
    ("L?", .compare (.order .less)), ("G?", .compare (.order .greater)),
    ("0?", .compare .isZero)]

/-- The operation that a name, in any letter case, calls. -/
def lookup? (r : Registry) (name : String) : Option Operation := r.get? (canonical name)

/-- Lets a further name call an operation. -/
def register (r : Registry) (name : String) (op : Operation) : Registry :=
  r.insert (canonical name) op

/-- Every operation under all its names. -/
def standard : Registry :=
  NameMap.ofList (operations.map (fun op => (op.name, op)) ++ aliases)

/-- What a name calls, looked up in the list of all names. -/
theorem lookup?_standard (name : String) :
    standard.lookup? name =
      ((operations.map (fun op => (op.name, op)) ++ aliases).reverse.find?
        fun e => e.1 = canonical name).map (·.2) :=
  NameMap.get?_ofList _ _

end Registry

end TextAdventure
