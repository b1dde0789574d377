/-!
Double-precision numbers.

A `Binary64` is the 64-bit word of a number in the binary interchange format.  A finite number
is a whole multiple of 2⁻¹⁰⁷⁴, so its magnitude is the natural number `units`, and every
operation below computes its exact result in natural numbers and rounds once, to the nearest
number and to the even one of two nearest.

Main statements:
* `roundRatio` — the word nearest to a quotient of natural numbers;
* `add`, `sub`, `mul`, `div` — exact result, one rounding;
* `totalKey` — the order in which negative NaN comes first and positive NaN last;
* `numericKey` — the order of values, in which the two zeros are equal.

Design notes.  An exponent field `e` and a significand `m` of a finite number stand for
`m * 2 ^ (e - 1)` units, with `m < 2 ^ 52` exactly when `e = 0`; so the word of a number whose
significand is shifted left by `p` is `p * 2 ^ 52 + m`, subnormal numbers and the carry into the
next binade included.
-/

namespace TextAdventure

/-- A double-precision number, as its 64-bit word. -/
structure Binary64 where
  bits : UInt64
  deriving DecidableEq, Repr, Inhabited

namespace Binary64

/-- The word as a natural number. -/
def word (x : Binary64) : Nat := x.bits.toNat

/-- The word without its sign bit. -/
def magnitude (x : Binary64) : Nat := x.word % (1 <<< 63)

/-- Whether the sign bit is set. -/
def isNegative (x : Binary64) : Bool := 1 <<< 63 ≤ x.word

/-- The eleven exponent bits. -/
def exponentField (x : Binary64) : Nat := x.magnitude >>> 52

/-- The fifty-two fraction bits. -/
def fraction (x : Binary64) : Nat := x.word % (1 <<< 52)

/-- The word of an infinity, sign aside. -/
def infinityWord : Nat := 2047 <<< 52

/-- Infinities and NaN are not finite. -/
def isFinite (x : Binary64) : Bool := x.magnitude < infinityWord

def isNaN (x : Binary64) : Bool := infinityWord < x.magnitude

def isInfinite (x : Binary64) : Bool := x.magnitude == infinityWord

/-- The significand of a finite number, its leading one included. -/
def significand (x : Binary64) : Nat :=
  if x.exponentField = 0 then x.fraction else (1 <<< 52) + x.fraction

/-- How far the significand of a finite number is shifted left, in units of 2⁻¹⁰⁷⁴. -/
def shift (x : Binary64) : Nat := x.exponentField - 1

/-- How many units of 2⁻¹⁰⁷⁴ make up one. -/
def unitsPerOne : Nat := 1 <<< 1074

/-- The magnitude of a finite number in units of 2⁻¹⁰⁷⁴. -/
def units (x : Binary64) : Nat := x.significand <<< x.shift

/-- A finite number in units of 2⁻¹⁰⁷⁴, with its sign. -/
def signedUnits (x : Binary64) : Int := if x.isNegative then -x.units else x.units

/-- The number with a given sign and a given word below 2⁶³. -/
def ofParts (negative : Bool) (magnitude : Nat) : Binary64 :=
  ⟨UInt64.ofNat (magnitude + if negative then 1 <<< 63 else 0)⟩

def infinity (negative : Bool) : Binary64 := ofParts negative infinityWord

def zero (negative : Bool) : Binary64 := ofParts negative 0

/-- What an operation without a numeric result yields. -/
def undefinedResult : Binary64 := ofParts true (infinityWord + (1 <<< 51))

/-! ### Rounding -/

/-- The whole number nearest to `n / d`; of two nearest, the even one. -/
def divRound (n d : Nat) : Nat :=
  let quotient := n / d
  let rest := n % d
  if 2 * rest < d then quotient
  else if d < 2 * rest then quotient + 1
  else quotient + quotient % 2

/-- The number nearest to `n / d`, with the given sign; too large a quotient is an infinity. -/
def roundRatio (negative : Bool) (n d : Nat) : Binary64 :=
  let scaled := n * unitsPerOne
  let shift := (scaled / d).log2 - 52
  let word := (shift <<< 52) + divRound scaled (d <<< shift)
  ofParts negative (min word infinityWord)

/-- The number nearest to a whole number. -/
def ofInt (n : Int) : Binary64 := roundRatio (n < 0) n.natAbs 1

/-! ### Arithmetic -/

/-- A NaN operand becomes the result, the left one first, with its quiet bit set. -/
def orNaN (x y : Binary64) (result : Binary64) : Binary64 :=
  let quiet (z : Binary64) : Binary64 := ⟨z.bits ||| 0x0008000000000000⟩
  if x.isNaN then quiet x else if y.isNaN then quiet y else result

/-- Addition of numbers that are not NaN. -/
def addNumbers (x y : Binary64) : Binary64 :=
  match x.isInfinite, y.isInfinite with
  | true, true => if x.isNegative == y.isNegative then x else undefinedResult
  | true, false => x
  | false, true => y
  | false, false =>
    let sum := x.signedUnits + y.signedUnits
    if sum = 0 then zero (x.isNegative && y.isNegative)
    else roundRatio (sum < 0) sum.natAbs unitsPerOne

/-- The number with its sign bit flipped. -/
def neg (x : Binary64) : Binary64 := ⟨x.bits ^^^ 0x8000000000000000⟩

def add (x y : Binary64) : Binary64 := orNaN x y (addNumbers x y)

def sub (x y : Binary64) : Binary64 := orNaN x y (addNumbers x y.neg)

def mul (x y : Binary64) : Binary64 :=
  let negative := x.isNegative != y.isNegative
  orNaN x y <|
    match x.isInfinite, y.isInfinite with
    | true, true => infinity negative
    | true, false => if y.magnitude = 0 then undefinedResult else infinity negative
    | false, true => if x.magnitude = 0 then undefinedResult else infinity negative
    | false, false => roundRatio negative (x.units * y.units) (unitsPerOne * unitsPerOne)

def div (x y : Binary64) : Binary64 :=
  let negative := x.isNegative != y.isNegative
  orNaN x y <|
    match x.isInfinite, y.isInfinite with
    | true, true => undefinedResult
    | true, false => infinity negative
    | false, true => zero negative
    | false, false =>
      if y.magnitude = 0 then
        if x.magnitude = 0 then undefinedResult else infinity negative
      else roundRatio negative x.units y.units

/-- The number with its sign bit cleared. -/
def abs (x : Binary64) : Binary64 := ofParts false x.magnitude

/-! ### Order -/

/-- The place of a number in the order that keeps every word apart: by sign, then by
magnitude, so that negative zero comes before zero and NaN at the two ends. -/
def totalKey (x : Binary64) : Int :=
  if x.isNegative then -(x.magnitude : Int) - 1 else x.magnitude

/-- The place of a number in the order of values; the two zeros share one. -/
def numericKey (x : Binary64) : Int :=
  if x.isNegative then -(x.magnitude : Int) else x.magnitude

/-- Whether one value lies below another; a NaN lies below and above nothing. -/
def lt (x y : Binary64) : Bool := !x.isNaN && !y.isNaN && x.numericKey < y.numericKey

/-- Whether the number is zero, of either sign. -/
def isZero (x : Binary64) : Bool := x.magnitude == 0

/-- Whether the number is finite and has no fractional part. -/
def isWhole (x : Binary64) : Bool := x.isFinite && x.units % unitsPerOne == 0

/-! ### Laws -/

/-- Rounding an exact quotient gives the quotient. -/
theorem divRound_mul (n d : Nat) (h : 0 < d) : divRound (n * d) d = n := by
  simp [divRound, Nat.mul_div_cancel n h, h]

end Binary64

end TextAdventure
