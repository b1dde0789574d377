import TextAdventure.Game.Settings

/-!
Random numbers from the ChaCha function.

The ChaCha function with eight rounds, under a key made from the seed, gives sixteen 32-bit words
for each value of its counter, and two of them in turn make one word of 64 bits.  A word is turned
into a number below a limit by multiplying and keeping the high half; words whose low half is too
large would favour some numbers and are passed over.

Main statements:
* `ChaCha.word` — the word at a place in the stream of a key;
* `ChaCha.generator` — the random numbers for a seed;
* `Host.chaCha` — a host that draws them.

Design notes.  The counter has 64 bits, so after `ChaCha.period` words the stream begins anew.
Where none of so many words in a row is kept, none ever is; there the number drawn is one.
-/

namespace TextAdventure

namespace ChaCha

/-! ### The stream -/

/-- The four words that every state begins with. -/
def constants : List UInt32 := [0x61707865, 0x3320646e, 0x79622d32, 0x6b206574]

def rotateLeft (x : UInt32) (n : UInt32) : UInt32 := (x <<< n) ||| (x >>> (32 - n))

/-- The quarter round on the four words at the given places. -/
def quarterRound (s : Array UInt32) (a b c d : Nat) : Array UInt32 :=
  let get (i : Nat) : UInt32 := s.getD i 0
  let a1 := get a + get b
  let d1 := rotateLeft (get d ^^^ a1) 16
  let c1 := get c + d1
  let b1 := rotateLeft (get b ^^^ c1) 12
  let a2 := a1 + b1
  let d2 := rotateLeft (d1 ^^^ a2) 8
  let c2 := c1 + d2
  let b2 := rotateLeft (b1 ^^^ c2) 7
  (((s.setIfInBounds a a2).setIfInBounds b b2).setIfInBounds c c2).setIfInBounds d d2

/-- A column round and a diagonal round. -/
def doubleRound (s : Array UInt32) : Array UInt32 :=
  let s := quarterRound s 0 4 8 12
  let s := quarterRound s 1 5 9 13
  let s := quarterRound s 2 6 10 14
  let s := quarterRound s 3 7 11 15
  let s := quarterRound s 0 5 10 15
  let s := quarterRound s 1 6 11 12
  let s := quarterRound s 2 7 8 13
  quarterRound s 3 4 9 14

/-- The sixteen words that eight rounds make of a key and a counter. -/
def block (key : List UInt32) (counter : Nat) : List UInt32 :=
  let counterWords := [counter.toUInt32, (counter >>> 32).toUInt32, 0, 0]
  let start := (constants ++ key ++ counterWords).toArray
  let mixed := doubleRound (doubleRound (doubleRound (doubleRound start)))
  List.zipWith (· + ·) mixed.toList start.toList

/-- Stretches a seed to as many key words as asked for. -/
def keyWords : Nat → UInt64 → List UInt32
  | 0, _ => []
  | count + 1, state =>
    let state := state * 6364136223846793005 + 11634580027462260723
    let mixed := (((state >>> 18) ^^^ state) >>> 27).toUInt32
    let turn := (state >>> 59).toUInt32
    ((mixed >>> turn) ||| (mixed <<< ((32 - turn) % 32))) :: keyWords count state

/-- The word at a place in the stream of a key. -/
def word (key : List UInt32) (place : Nat) : UInt64 :=
  let words := block key (place / 8)
  let low := words.getD (2 * (place % 8)) 0
  let high := words.getD (2 * (place % 8) + 1) 0
  (high.toUInt64 <<< 32) ||| low.toUInt64

/-- How many words there are before the stream begins anew. -/
def period : Nat := 8 * UInt64.size

/-! ### Numbers below a limit -/

/-- The largest low half that is not passed over: the limit shifted left until its top bit is
set, less one. -/
def zone (limit : Nat) : Nat := (limit <<< (63 - limit.log2)) - 1

/-- The number that the first word kept stands for, and the place behind that word. -/
def settle (key : List UInt32) (limit : Nat) : Nat → Nat → Nat × Nat
  | 0, place => (1, place)
  | tries + 1, place =>
    let product := (word key place).toNat * limit
    if product % UInt64.size ≤ zone limit then (product / UInt64.size + 1, place + 1)
    else settle key limit tries (place + 1)

theorem settle_bounds (key : List UInt32) {limit : Nat} (h : 1 ≤ limit) (tries place : Nat) :
    1 ≤ (settle key limit tries place).1 ∧ (settle key limit tries place).1 ≤ limit := by
  induction tries generalizing place with
  | zero => exact ⟨Nat.le_refl 1, h⟩
  | succ tries ih =>
    rw [settle]
    split
    · have hproduct : (word key place).toNat * limit < UInt64.size * limit :=
        Nat.mul_lt_mul_of_pos_right (word key place).toNat_lt_size h
      have hhigh : (word key place).toNat * limit / UInt64.size < limit :=
        Nat.div_lt_of_lt_mul hproduct
      exact ⟨Nat.succ_pos _, hhigh⟩
    · exact ih (place + 1)

/-- The random numbers for a seed. -/
def generator (seed : UInt64) : Generator where
  draw place limit := settle (keyWords 8 seed) limit period place
  place := 0
  one_le_draw place _ h := (settle_bounds _ h period place).1
  draw_le place _ h := (settle_bounds _ h period place).2

end ChaCha

/-- A host that draws its random numbers with the ChaCha function. -/
def Host.chaCha : Host := ⟨ChaCha.generator, Library.defaultCells⟩

end TextAdventure
