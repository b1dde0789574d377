import TextAdventure.Number.Binary64

/-!
Decimal text of numbers.

Whole numbers are read and written in the usual way.  A double-precision number is written
with the fewest digits that read back as the same number, always positionally and never with an
exponent.

Main statements:
* `digitsValue` — the natural number that a string of digits denotes;
* `readInt` — a signed 64-bit integer, or which end of the range it exceeds;
* `Binary64.ofDecimal` — the number nearest to a decimal with a fractional part;
* `Binary64.shortest` — the digits and power of ten of the shortest decimal that reads back;
* `Binary64.text` — that decimal, written positionally.
-/

namespace TextAdventure

/-! ### Whole numbers -/

/-- One of the ten digits 0 to 9. -/
def isDigit (c : Char) : Bool := '0' ≤ c && c ≤ '9'

/-- The natural number denoted by a string of digits. -/
def digitsValue (cs : List Char) : Nat :=
  cs.foldl (fun n c => n * 10 + (c.toNat - '0'.toNat)) 0

/-- The decimal digits of a natural number. -/
def natDigits (n : Nat) : List Char := Nat.toDigits 10 n

/-- The decimal text of an integer. -/
def intText (n : Int) : String :=
  String.ofList (if n < 0 then '-' :: natDigits n.natAbs else natDigits n.natAbs)

/-- A sign and what follows it; no sign counts as plus. -/
def splitSign : List Char → Bool × List Char
  | '-' :: cs => (true, cs)
  | '+' :: cs => (false, cs)
  | cs => (false, cs)

/-- Why a whole number is not a signed 64-bit integer. -/
inductive RangeError where
  | tooLarge
  | tooSmall
  deriving DecidableEq, Repr

/-- The signed 64-bit integer with a given sign and magnitude. -/
def int64OfParts (negative : Bool) (magnitude : Nat) : Except RangeError Int64 :=
  if negative then
    if magnitude ≤ 1 <<< 63 then .ok (Int64.ofInt (-magnitude)) else .error .tooSmall
  else
    if magnitude < 1 <<< 63 then .ok (Int64.ofInt magnitude) else .error .tooLarge

/-- Reads an optional sign and digits as a signed 64-bit integer. -/
def readInt (cs : List Char) : Except RangeError Int64 :=
  let (negative, digits) := splitSign cs
  int64OfParts negative (digitsValue digits)

namespace Binary64

/-! ### Reading -/

/-- The number nearest to the decimal with the given sign, whole digits and fraction digits. -/
def ofDecimal (negative : Bool) (whole fraction : List Char) : Binary64 :=
  roundRatio negative (digitsValue (whole ++ fraction)) (Nat.pow 10 fraction.length)

/-! ### The shortest decimal that reads back -/

/-- An interval of positive reals as whole multiples of `1 / scale`: a value, and how far
below and above it a real may lie to be read as that value.  The ends belong to it exactly when
`closed` is set. -/
structure Neighbourhood where
  value : Nat
  below : Nat
  above : Nat
  scale : Nat
  closed : Bool

/-- The reals that round to a finite number other than zero.  The gap below a power of two is
half the gap above it. -/
def neighbourhood (x : Binary64) : Neighbourhood :=
  let atPower := x.fraction = 0 ∧ 1 < x.exponentField
  { value := 4 * x.units
    below := if atPower then 1 <<< x.shift else 2 <<< x.shift
    above := 2 <<< x.shift
    scale := 4 * unitsPerOne
    closed := x.significand % 2 == 0 }

/-- Whether `p / q` lies in the neighbourhood. -/
def Neighbourhood.contains (i : Neighbourhood) (p q : Nat) : Bool :=
  let x := p * i.scale
  let low := (i.value - i.below) * q
  let high := (i.value + i.above) * q
  if i.closed then low ≤ x && x ≤ high else low < x && x < high

/-- The whole number of steps of size `num / den` that lies in the neighbourhood and nearest
to its value: the step below the value, or the step above it, or none.  Halfway between the two
the step above is taken. -/
def Neighbourhood.nearestStep (i : Neighbourhood) (num den : Nat) : Option Nat :=
  let exact := i.value * den
  let unit := i.scale * num
  let lower := exact / unit
  let upper := lower + 1
  match i.contains (lower * num) den, i.contains (upper * num) den with
  | true, true => some (if 2 * (exact % unit) < unit then lower else upper)
  | true, false => some lower
  | false, true => some upper
  | false, false => none

/-- Looks for the coarsest power of ten with a whole multiple in the neighbourhood, starting at
`10 ^ exponent` and going down: the multiple and the exponent. -/
def Neighbourhood.search (i : Neighbourhood) : Nat → Int → Nat × Int
  | 0, exponent => (0, exponent)
  | steps + 1, exponent =>
    let found :=
      if 0 ≤ exponent then i.nearestStep (Nat.pow 10 exponent.natAbs) 1
      else i.nearestStep 1 (Nat.pow 10 exponent.natAbs)
    match found with
    | some digits => (digits, exponent)
    | none => i.search steps (exponent - 1)

/-- A power of ten that is not below the magnitude of a finite number. -/
def upperExponent (x : Binary64) : Int :=
  let whole := x.units / unitsPerOne
  if whole = 0 then
    -((natDigits (unitsPerOne / x.units)).length - 1 : Int)
  else (natDigits whole).length

/-- The shortest decimal that reads back as a finite number other than zero, as its digits and
a power of ten.  Eighteen digits always suffice. -/
def shortest (x : Binary64) : Nat × Int := x.neighbourhood.search 20 x.upperExponent

/-! ### Writing -/

/-- The digits `n` with the last of them standing for the given power of ten. -/
def positional (n : Nat) (exponent : Int) : List Char :=
  let digits := natDigits n
  if 0 ≤ exponent then digits ++ List.replicate exponent.natAbs '0'
  else
    let places := exponent.natAbs
    let padded := List.replicate (places + 1 - digits.length) '0' ++ digits
    padded.take (padded.length - places) ++ '.' :: padded.drop (padded.length - places)

/-- The shortest decimal text that reads back as the number, without an exponent. -/
def text (x : Binary64) : String :=
  if x.isNaN then "NaN"
  else
    let sign := if x.isNegative then ['-'] else []
    let digits :=
      if x.isInfinite then ['i', 'n', 'f']
      else if x.isZero then ['0']
      else
        let (n, exponent) := x.shortest
        positional n exponent
    String.ofList (sign ++ digits)

/-- The text of a number literal: a whole finite number is written out in full with one
fractional digit, so that it still reads as a literal with a fractional part. -/
def literalText (x : Binary64) : String :=
  if x.isWhole then
    let sign := if x.isNegative then ['-'] else []
    String.ofList (sign ++ natDigits (x.units / unitsPerOne) ++ ['.', '0'])
  else x.text

end Binary64

end TextAdventure
