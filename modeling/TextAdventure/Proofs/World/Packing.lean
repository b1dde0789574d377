import Mathlib.Algebra.Group.Nat.Defs
import Mathlib.Data.List.Basic
import TextAdventure.World.Flags

/-!
Sets of flags in words of 64 bits.

A set of flags takes as many words as its largest member has ever needed.  It may as well be kept
as the list of these words: a bit is found by its word and its place in the word, setting it first
makes room, and clearing it leaves words that hold nothing.

* `FlagSet.Fits` — the members of a set have room in its words;
* `FlagWords` — a list of words, with the operations on single bits;
* `FlagSet.toWords` — the words of a set;
* `FlagSet.Packs`, `FlagSet.Fits.packs` — testing, setting, clearing and listing bits in the words
  of a set is what it is in the set.
-/

namespace TextAdventure

/-! ### Room for the members -/

namespace FlagSet

/-- The members of a set have room in its words. -/
def Fits (s : FlagSet) : Prop := s.mask < 2 ^ (64 * s.words)

theorem Fits.empty : FlagSet.empty.Fits := Nat.one_pos

theorem Fits.lt {s : FlagSet} (hs : s.Fits) {bit : Nat} (h : s.contains bit = true) :
    bit < 64 * s.words := by
  by_contra hge
  have hmask : s.mask < 2 ^ bit :=
    Nat.lt_of_lt_of_le hs (Nat.pow_le_pow_right (by omega) (Nat.le_of_not_lt hge))
  rw [contains, Nat.testBit_lt_two_pow hmask] at h
  cases h

theorem Fits.insert {s : FlagSet} (hs : s.Fits) (bit : Nat) : (s.insert bit).Fits := by
  have hroom : 64 * s.words ≤ 64 * max s.words (bit / 64 + 1) := by omega
  have hbit : bit < 64 * max s.words (bit / 64 + 1) := by omega
  refine Nat.or_lt_two_pow ?_ ?_
  · exact Nat.lt_of_lt_of_le hs (Nat.pow_le_pow_right (by omega) hroom)
  · rw [Nat.one_shiftLeft]
    exact Nat.pow_lt_pow_right (by omega) hbit

theorem Fits.remove {s : FlagSet} (hs : s.Fits) (bit : Nat) : (s.remove bit).Fits := by
  rw [FlagSet.remove]
  split
  · rename_i hbit
    refine Nat.xor_lt_two_pow hs ?_
    rw [Nat.one_shiftLeft]
    exact Nat.pow_lt_pow_right (by omega) (hs.lt hbit)
  · exact hs

theorem words_remove (s : FlagSet) (bit : Nat) : (s.remove bit).words = s.words := by
  rw [remove]
  split
  · rfl
  · rfl

theorem mem_toList {s : FlagSet} (hs : s.Fits) {bit : Nat} :
    bit ∈ s.toList ↔ s.contains bit = true := by
  rw [toList, List.mem_filter, List.mem_range]
  exact ⟨fun h => h.2, fun h => ⟨hs.lt h, h⟩⟩

theorem toList_sorted (s : FlagSet) : s.toList.Pairwise (· < ·) :=
  List.pairwise_lt_range.filter _

end FlagSet

/-! ### Words -/

/-- A set of bit numbers in words of 64 bits, the lowest numbers in the first word. -/
abbrev FlagWords : Type := List (BitVec 64)

namespace FlagWords

/-- The word in which only the bit at a place is set. -/
def single (place : Nat) : BitVec 64 := 1#64 <<< place

/-- Whether a bit is set. -/
def testBit (ws : FlagWords) (bit : Nat) : Bool :=
  match ws[bit / 64]? with
  | some word => word &&& single (bit % 64) != 0#64
  | none => false

/-- The words with room for a bit. -/
def grown (ws : FlagWords) (bit : Nat) : FlagWords :=
  if ws.length ≤ bit / 64 then ws ++ List.replicate (bit / 64 + 1 - ws.length) 0#64 else ws

def setBit (ws : FlagWords) (bit : Nat) : FlagWords :=
  (ws.grown bit).modify (bit / 64) (· ||| single (bit % 64))

def clearBit (ws : FlagWords) (bit : Nat) : FlagWords :=
  ws.modify (bit / 64) (· &&& ~~~single (bit % 64))

/-- The bits that are set, word by word. -/
def members (ws : FlagWords) : List Nat :=
  ws.zipIdx.flatMap fun (word, i) =>
    ((List.range 64).filter fun place => word &&& single place != 0#64).map (64 * i + ·)

theorem getLsbD_single (place i : Nat) :
    (single place).getLsbD i = (decide (i < 64) && decide (place = i)) := by
  rw [single, ← BitVec.twoPow_eq, BitVec.getLsbD_twoPow]
  by_cases h : place = i
  · simp [h]
  · simp [h]

/-- A mask picks out the bit at its place. -/
theorem and_single_ne_zero (word : BitVec 64) {place : Nat} (hplace : place < 64) :
    (word &&& single place != 0#64) = word.getLsbD place := by
  rw [Bool.eq_iff_iff, bne_iff_ne, ne_eq]
  constructor
  · intro h
    by_contra hclear
    refine h (BitVec.eq_of_getLsbD_eq fun i hi => ?_)
    rw [BitVec.getLsbD_and, getLsbD_single, BitVec.getLsbD_zero]
    by_cases heq : place = i
    · subst heq
      simp [hclear]
    · simp [heq]
  · intro h hzero
    have hbit : (word &&& single place).getLsbD place = false := by
      rw [hzero, BitVec.getLsbD_zero]
    rw [BitVec.getLsbD_and, getLsbD_single, h] at hbit
    simp [hplace] at hbit

end FlagWords

/-! ### The words of a set -/

namespace FlagSet

/-- The words of a set. -/
def toWords (s : FlagSet) : FlagWords :=
  (List.range s.words).map fun i => BitVec.ofNat 64 (s.mask >>> (64 * i))

/-- The bit at a place of a word of a set. -/
theorem getLsbD_toWord (s : FlagSet) (i : Nat) {place : Nat} (hplace : place < 64) :
    (BitVec.ofNat 64 (s.mask >>> (64 * i))).getLsbD place = s.contains (64 * i + place) := by
  rw [BitVec.getLsbD_ofNat, Nat.testBit_shiftRight, contains]
  simp [hplace]

theorem length_toWords (s : FlagSet) : s.toWords.length = s.words := by
  rw [toWords, List.length_map, List.length_range]

theorem getElem?_toWords (s : FlagSet) (i : Nat) :
    s.toWords[i]? =
      if i < s.words then some (BitVec.ofNat 64 (s.mask >>> (64 * i))) else none := by
  rw [toWords, List.getElem?_map]
  by_cases hi : i < s.words
  · rw [if_pos hi, List.getElem?_range hi, Option.map_some]
  · rw [if_neg hi, List.getElem?_eq_none (by simpa using hi), Option.map_none]

/-- Two lists of words with the same bits at all places. -/
theorem toWords_eq_iff {s : FlagSet} {ws : FlagWords} :
    s.toWords = ws ↔ s.words = ws.length ∧
      ∀ i word, ws[i]? = some word → ∀ place < 64,
        word.getLsbD place = s.contains (64 * i + place) := by
  constructor
  · rintro rfl
    refine ⟨s.length_toWords.symm, fun i word hword place hplace => ?_⟩
    rw [getElem?_toWords] at hword
    split at hword
    · cases hword
      exact s.getLsbD_toWord i hplace
    · cases hword
  · rintro ⟨hlength, hbits⟩
    refine List.ext_getElem? fun i => ?_
    rw [getElem?_toWords]
    split
    · rename_i hi
      have hword := List.getElem?_eq_getElem (hlength ▸ hi : i < ws.length)
      rw [hword, Option.some_inj]
      refine BitVec.eq_of_getLsbD_eq fun place hplace => ?_
      rw [s.getLsbD_toWord i hplace, hbits i _ hword place hplace]
    · rename_i hi
      rw [List.getElem?_eq_none (by omega)]

/-- Working with the words of a set is working with the set. -/
structure Packs (s : FlagSet) : Prop where
  test (bit : Nat) : s.toWords.testBit bit = s.contains bit
  set (bit : Nat) : s.toWords.setBit bit = (s.insert bit).toWords
  clear (bit : Nat) : s.toWords.clearBit bit = (s.remove bit).toWords
  members : s.toWords.members = s.toList

theorem Fits.test_toWords {s : FlagSet} (hs : s.Fits) (bit : Nat) :
    s.toWords.testBit bit = s.contains bit := by
  have hplace : bit % 64 < 64 := Nat.mod_lt _ (by omega)
  rw [FlagWords.testBit, getElem?_toWords]
  by_cases hroom : bit / 64 < s.words
  · rw [if_pos hroom]
    dsimp only
    rw [FlagWords.and_single_ne_zero _ hplace, s.getLsbD_toWord _ hplace, Nat.div_add_mod]
  · rw [if_neg hroom]
    symm
    by_contra hbit
    have := hs.lt (Bool.not_eq_false _ ▸ hbit)
    omega

/-- The bit at a place of the words of a set after making room. -/
theorem Fits.getLsbD_grown {s : FlagSet} (hs : s.Fits) {bit i : Nat} {word : BitVec 64}
    (hword : (s.toWords.grown bit)[i]? = some word) {place : Nat} (hplace : place < 64) :
    word.getLsbD place = s.contains (64 * i + place) := by
  have hbits := (toWords_eq_iff.mp (rfl : s.toWords = s.toWords)).2
  rw [FlagWords.grown] at hword
  split at hword
  · rw [List.getElem?_append] at hword
    split at hword
    · exact hbits i word hword place hplace
    · rename_i hi
      rw [length_toWords] at hi
      have hzero := List.eq_of_mem_replicate (List.mem_of_getElem? hword)
      rw [hzero, BitVec.getLsbD_zero]
      symm
      by_contra hbit
      have := hs.lt (Bool.not_eq_false _ ▸ hbit)
      omega
  · exact hbits i word hword place hplace

theorem length_grown (s : FlagSet) (bit : Nat) :
    (s.toWords.grown bit).length = max s.words (bit / 64 + 1) := by
  rw [FlagWords.grown]
  split
  · rename_i hlength
    rw [length_toWords] at hlength
    rw [List.length_append, List.length_replicate, length_toWords]
    omega
  · rename_i hlength
    rw [length_toWords] at hlength ⊢
    omega

/-- A bit is told by its word and its place in the word. -/
theorem decide_bit_eq (bit i : Nat) {place : Nat} (hplace : place < 64) :
    decide (bit = 64 * i + place) = (decide (bit / 64 = i) && decide (bit % 64 = place)) := by
  rw [← Bool.decide_and, decide_eq_decide]
  omega

theorem Fits.set_toWords {s : FlagSet} (hs : s.Fits) (bit : Nat) :
    s.toWords.setBit bit = (s.insert bit).toWords := by
  symm
  rw [toWords_eq_iff]
  refine ⟨?_, fun i word hword place hplace => ?_⟩
  · rw [FlagWords.setBit, List.length_modify, length_grown]
    rfl
  · rw [FlagWords.setBit, List.getElem?_modify] at hword
    obtain ⟨old, hold, rfl⟩ := Option.map_eq_some_iff.mp hword
    have hbit := hs.getLsbD_grown hold hplace
    rw [contains_insert, decide_bit_eq bit i hplace]
    by_cases hi : bit / 64 = i
    · rw [if_pos hi, BitVec.getLsbD_or, hbit, FlagWords.getLsbD_single, Bool.or_comm]
      simp [hi, hplace]
    · rw [if_neg hi, hbit]
      simp [hi]

theorem clear_toWords (s : FlagSet) (bit : Nat) :
    s.toWords.clearBit bit = (s.remove bit).toWords := by
  symm
  rw [toWords_eq_iff]
  refine ⟨?_, fun i word hword place hplace => ?_⟩
  · rw [FlagWords.clearBit, List.length_modify, length_toWords, words_remove]
  · rw [FlagWords.clearBit, List.getElem?_modify] at hword
    obtain ⟨old, hold, rfl⟩ := Option.map_eq_some_iff.mp hword
    have hbit := (toWords_eq_iff.mp (rfl : s.toWords = s.toWords)).2 i old hold place hplace
    rw [contains_remove, decide_bit_eq bit i hplace]
    by_cases hi : bit / 64 = i
    · rw [if_pos hi, BitVec.getLsbD_and, hbit, BitVec.getLsbD_not, FlagWords.getLsbD_single,
        Bool.and_comm]
      simp [hi, hplace]
    · rw [if_neg hi, hbit]
      simp [hi]

/-- The first numbers, 64 at a time. -/
theorem range_words (n : Nat) :
    List.range (64 * n) = (List.range n).flatMap fun i => (List.range 64).map (64 * i + ·) := by
  induction n with
  | zero => rfl
  | succ n ih =>
    have hlast : List.range (n + 1) = List.range n ++ [n] := List.range_succ
    rw [Nat.mul_succ, List.range_add, ih, hlast, List.flatMap_append, List.flatMap_singleton]

theorem members_toWords (s : FlagSet) : s.toWords.members = s.toList := by
  have hword (i : Nat) :
      ((List.range 64).filter fun place =>
        BitVec.ofNat 64 (s.mask >>> (64 * i)) &&& FlagWords.single place != 0#64).map (64 * i + ·) =
      ((List.range 64).map (64 * i + ·)).filter s.contains := by
    rw [List.filter_map]
    refine congrArg (List.map _) (List.filter_congr fun place hplace => ?_)
    have hlt := List.mem_range.mp hplace
    rw [FlagWords.and_single_ne_zero _ hlt, s.getLsbD_toWord i hlt]
    rfl
  have hindexed : s.toWords.zipIdx =
      (List.range s.words).map fun i => (BitVec.ofNat 64 (s.mask >>> (64 * i)), i) := by
    refine List.ext_getElem? fun i => ?_
    rw [List.getElem?_zipIdx, getElem?_toWords, List.getElem?_map]
    by_cases hi : i < s.words
    · rw [if_pos hi, List.getElem?_range hi]
      simp
    · rw [if_neg hi, List.getElem?_eq_none (by simpa using hi)]
      rfl
  rw [FlagWords.members, hindexed, List.flatMap_map, toList, range_words, List.filter_flatMap]
  exact congrArg (fun f => (List.range s.words).flatMap f) (funext hword)

theorem Fits.packs {s : FlagSet} (hs : s.Fits) : s.Packs :=
  ⟨hs.test_toWords, hs.set_toWords, s.clear_toWords, s.members_toWords⟩

end FlagSet

end TextAdventure
