import Mathlib.Algebra.Group.Nat.Defs
import TextAdventure.Number.Binary64

/-!
What becomes of whole numbers as floats.

A whole number is turned into the nearest float.  This keeps the order of whole numbers, but it
may take two of them to one float; only from 2⁵³ on does it come to that.

* `roundUnits_mono` — rounding keeps the order of magnitudes;
* `roundUnits_exact` — a magnitude whose significand has at most 53 bits is not changed;
* `totalKey_ofInt_mono`, `lt_ofInt_iff` — the floats of whole numbers are in the same order, but
  for those that become equal;
* `ofInt_inj_of_lt` — a whole number below 2⁵³ shares its float with no other;
* `ofInt_eq_of_between` — the whole numbers that share a float are a row of neighbours.
-/

namespace TextAdventure.Binary64

/-! ### Rounding a quotient -/

theorem div_le_divRound (n d : Nat) : n / d ≤ divRound n d := by
  rw [divRound]
  split
  · exact Nat.le_refl _
  · split <;> omega

theorem divRound_le_succ (n d : Nat) : divRound n d ≤ n / d + 1 := by
  rw [divRound]
  split
  · omega
  · split <;> omega

theorem divRound_mono {n m d : Nat} (h : n ≤ m) : divRound n d ≤ divRound m d := by
  have hquotient : n / d ≤ m / d := Nat.div_le_div_right h
  rcases Nat.lt_or_eq_of_le hquotient with hlt | heq
  · calc divRound n d ≤ n / d + 1 := divRound_le_succ n d
      _ ≤ m / d := hlt
      _ ≤ divRound m d := div_le_divRound m d
  · -- with equal quotients the larger number leaves the larger rest
    have hrest : n % d ≤ m % d := by
      have hn := Nat.div_add_mod n d
      have hm := Nat.div_add_mod m d
      rw [heq] at hn
      omega
    rw [divRound, divRound, heq]
    by_cases hdown : 2 * (m % d) < d
    · refine Nat.le_of_eq ?_
      rw [if_pos hdown, if_pos (by omega)]
    · rw [if_neg hdown]
      by_cases hup : d < 2 * (m % d)
      · rw [if_pos hup]
        split
        · omega
        · split <;> omega
      · -- a half is rounded alike, whatever is less than a half goes down
        rw [if_neg hup, if_neg (c := d < 2 * (n % d)) (by omega)]
        split <;> omega

/-! ### Rounding a magnitude -/

/-- The word of the float nearest to a number of units, sign aside and as if there were no largest
float. -/
def roundUnits (s : Nat) : Nat := (s.log2 - 52) * 2 ^ 52 + divRound s (2 ^ (s.log2 - 52))

theorem divRound_le_of_log2 (s : Nat) : divRound s (2 ^ (s.log2 - 52)) ≤ 2 ^ 53 := by
  have hlt : s < 2 ^ 53 * 2 ^ (s.log2 - 52) := by
    rw [← Nat.pow_add]
    exact Nat.lt_of_lt_of_le Nat.lt_log2_self (Nat.pow_le_pow_right (by decide) (by omega))
  calc divRound s (2 ^ (s.log2 - 52)) ≤ s / 2 ^ (s.log2 - 52) + 1 := divRound_le_succ _ _
    _ ≤ 2 ^ 53 := Nat.div_lt_of_lt_mul (Nat.mul_comm _ _ ▸ hlt)

theorem le_divRound_of_log2 {s : Nat} (h : 52 ≤ s.log2) :
    2 ^ 52 ≤ divRound s (2 ^ (s.log2 - 52)) := by
  have hne : s ≠ 0 := by
    rintro rfl
    rw [Nat.log2_zero] at h
    omega
  refine Nat.le_trans ?_ (div_le_divRound _ _)
  rw [Nat.le_div_iff_mul_le (Nat.two_pow_pos _), ← Nat.pow_add, Nat.add_sub_cancel' h]
  exact Nat.log2_self_le hne

theorem log2_mono {s t : Nat} (h : s ≤ t) : s.log2 ≤ t.log2 := by
  by_cases hs : s = 0
  · rw [hs, Nat.log2_zero]
    exact Nat.zero_le _
  · have ht : t ≠ 0 := by omega
    exact (Nat.le_log2 ht).mpr (Nat.le_trans (Nat.log2_self_le hs) h)

/-- Rounding keeps the order of magnitudes. -/
theorem roundUnits_mono {s t : Nat} (h : s ≤ t) : roundUnits s ≤ roundUnits t := by
  have hlog := log2_mono h
  rw [roundUnits, roundUnits]
  by_cases hshift : s.log2 - 52 = t.log2 - 52
  · rw [hshift]
    exact Nat.add_le_add_left (divRound_mono h) _
  · -- the larger number lies in a later binade, and none is rounded out of its own
    have hs := divRound_le_of_log2 s
    have ht := le_divRound_of_log2 (s := t) (by omega)
    have hbinade : (s.log2 - 52 + 1) * 2 ^ 52 ≤ (t.log2 - 52) * 2 ^ 52 :=
      Nat.mul_le_mul_right _ (by omega)
    omega

theorem log2_mul_two_pow {q p : Nat} (hq : q ≠ 0) : (q * 2 ^ p).log2 = q.log2 + p := by
  have hpos : 0 < 2 ^ p := Nat.two_pow_pos p
  refine (Nat.log2_eq_iff (Nat.mul_ne_zero hq (Nat.ne_of_gt hpos))).mpr ⟨?_, ?_⟩
  · rw [Nat.pow_add]
    exact Nat.mul_le_mul_right _ (Nat.log2_self_le hq)
  · rw [Nat.add_right_comm, Nat.pow_add]
    exact Nat.mul_lt_mul_of_pos_right Nat.lt_log2_self hpos

/-- A magnitude whose significand has at most 53 bits is not changed, the power of two behind them
included. -/
theorem roundUnits_exact {q p : Nat} (hle : q ≤ 2 ^ 53) (hnormal : p = 0 ∨ 2 ^ 52 ≤ q) :
    roundUnits (q * 2 ^ p) = p * 2 ^ 52 + q := by
  by_cases hcarry : q = 2 ^ 53
  · -- the next power of two has one bit more, and the shift takes it up
    have hlog : (q * 2 ^ p).log2 - 52 = p + 1 := by
      rw [hcarry, ← Nat.pow_add, Nat.log2_two_pow]
      omega
    have hsplit : q * 2 ^ p = 2 ^ 52 * 2 ^ (p + 1) := by
      rw [hcarry, ← Nat.pow_add, ← Nat.pow_add]
      congr 1
      omega
    rw [roundUnits, hlog, hsplit, divRound_mul _ _ (Nat.two_pow_pos _), hcarry]
    omega
  · have hlog : (q * 2 ^ p).log2 - 52 = p := by
      by_cases hq : q = 0
      · rcases hnormal with rfl | hnormal
        · rw [hq, Nat.zero_mul, Nat.log2_zero]
        · omega
      · have hupper : q.log2 < 53 := (Nat.log2_lt hq).mpr (by omega)
        rw [log2_mul_two_pow hq]
        rcases hnormal with rfl | hnormal
        · omega
        · have hlower : 52 ≤ q.log2 := (Nat.le_log2 hq).mpr hnormal
          omega
    rw [roundUnits, hlog, divRound_mul _ _ (Nat.two_pow_pos _)]

/-- A magnitude whose significand has fewer than 53 bits, or just as many, is rounded to less than
whatever exceeds it by the value of its last bit. -/
theorem roundUnits_lt {q p t : Nat} (hq : q < 2 ^ 53) (hnormal : p = 0 ∨ 2 ^ 52 ≤ q)
    (h : (q + 1) * 2 ^ p ≤ t) : roundUnits (q * 2 ^ p) < roundUnits t := by
  have hmono := roundUnits_mono h
  rw [roundUnits_exact (by omega) (by omega)] at hmono
  rw [roundUnits_exact (by omega) hnormal]
  omega

/-! ### Whole numbers in units -/

/-- The word of the float nearest to a natural number. -/
def natWord (k : Nat) : Nat := min (roundUnits (k * unitsPerOne)) infinityWord

theorem natWord_mono {k l : Nat} (h : k ≤ l) : natWord k ≤ natWord l := by
  have hmono := roundUnits_mono (Nat.mul_le_mul_right unitsPerOne h)
  rw [natWord, natWord]
  omega

theorem natWord_le (k : Nat) : natWord k ≤ infinityWord := Nat.min_le_right _ _

theorem natWord_zero : natWord 0 = 0 := by decide

theorem unitsPerOne_eq : unitsPerOne = 2 ^ 1074 := by
  -- the exponent is too large for the power to be evaluated
  unfold unitsPerOne
  generalize 1074 = n
  exact Nat.one_shiftLeft n

/-- A natural number below 2⁵³ is some significand, shifted left no further than by a whole one. -/
theorem exists_significand {k : Nat} (hlt : k < 2 ^ 53) :
    ∃ q p, k * unitsPerOne = q * 2 ^ p ∧ q < 2 ^ 53 ∧ (p = 0 ∨ 2 ^ 52 ≤ q) ∧ p ≤ 1074 := by
  by_cases hk : k = 0
  · exact ⟨0, 0, by rw [hk, Nat.zero_mul, Nat.zero_mul], by decide, .inl rfl, by omega⟩
  · have hlog : k.log2 < 53 := (Nat.log2_lt hk).mpr hlt
    refine ⟨k * 2 ^ (52 - k.log2), 1022 + k.log2, ?_, ?_, .inr ?_, by omega⟩
    · have hsum : 52 - k.log2 + (1022 + k.log2) = 1074 := by omega
      rw [unitsPerOne_eq, Nat.mul_assoc, ← Nat.pow_add, hsum]
    · have hsum : k.log2 + 1 + (52 - k.log2) = 53 := by omega
      rw [← hsum, Nat.pow_add]
      exact Nat.mul_lt_mul_of_pos_right Nat.lt_log2_self (Nat.two_pow_pos _)
    · have hsum : k.log2 + (52 - k.log2) = 52 := by omega
      refine Nat.le_trans (Nat.le_of_eq ?_) (Nat.mul_le_mul_right _ (Nat.log2_self_le hk))
      rw [← Nat.pow_add, hsum]

/-- Whatever is larger than a natural number below 2⁵³ is rounded to something larger. -/
theorem natWord_lt {k l : Nat} (hlt : k < 2 ^ 53) (h : k < l) : natWord k < natWord l := by
  obtain ⟨q, p, hk, hq, hnormal, hp⟩ := exists_significand hlt
  have hone : 2 ^ p ≤ unitsPerOne := by
    obtain ⟨d, hd⟩ := Nat.exists_eq_add_of_le hp
    rw [unitsPerOne_eq, hd, Nat.pow_add]
    exact Nat.le_mul_of_pos_right _ (Nat.two_pow_pos d)
  have hnext : (q + 1) * 2 ^ p ≤ l * unitsPerOne := by
    calc (q + 1) * 2 ^ p = k * unitsPerOne + 2 ^ p := by rw [hk, Nat.succ_mul]
      _ ≤ k * unitsPerOne + unitsPerOne := Nat.add_le_add_left hone _
      _ = (k + 1) * unitsPerOne := (Nat.succ_mul _ _).symm
      _ ≤ l * unitsPerOne := Nat.mul_le_mul_right _ h
  have hfinite : roundUnits (q * 2 ^ p) < infinityWord := by
    have hword : infinityWord = 2047 * 2 ^ 52 := Nat.shiftLeft_eq 2047 52
    have hshift : p * 2 ^ 52 ≤ 1074 * 2 ^ 52 := Nat.mul_le_mul_right _ hp
    rw [roundUnits_exact (by omega) hnormal]
    omega
  rw [natWord, natWord, hk]
  exact Nat.lt_min.mpr ⟨Nat.lt_of_le_of_lt (Nat.min_le_left _ _) (roundUnits_lt hq hnormal hnext),
    Nat.lt_of_le_of_lt (Nat.min_le_left _ _) hfinite⟩

/-! ### Signs and words -/

theorem word_ofParts {magnitude : Nat} (h : magnitude < 2 ^ 63) (negative : Bool) :
    (ofParts negative magnitude).word = magnitude + if negative then 2 ^ 63 else 0 := by
  rw [word, ofParts, UInt64.toNat_ofNat']
  refine Nat.mod_eq_of_lt ?_
  have hone : (1 <<< 63 : Nat) = 2 ^ 63 := rfl
  rw [hone]
  split <;> omega

theorem magnitude_ofParts {magnitude : Nat} (h : magnitude < 2 ^ 63) (negative : Bool) :
    (ofParts negative magnitude).magnitude = magnitude := by
  have hone : (1 <<< 63 : Nat) = 2 ^ 63 := rfl
  rw [Binary64.magnitude, word_ofParts h, hone]
  split <;> omega

theorem isNegative_ofParts {magnitude : Nat} (h : magnitude < 2 ^ 63) (negative : Bool) :
    (ofParts negative magnitude).isNegative = negative := by
  have hone : (1 <<< 63 : Nat) = 2 ^ 63 := rfl
  rw [isNegative, word_ofParts h, hone]
  cases negative
  · simpa using h
  · simp

/-- A word is known by its sign and its magnitude. -/
theorem totalKey_injective {x y : Binary64} (h : x.totalKey = y.totalKey) : x = y := by
  have hone : (1 <<< 63 : Nat) = 2 ^ 63 := rfl
  have hx : x.word < 2 ^ 64 := x.bits.toNat_lt
  have hy : y.word < 2 ^ 64 := y.bits.toNat_lt
  have hword : x.word = y.word := by
    simp only [totalKey, isNegative, magnitude, hone, decide_eq_true_eq] at h
    split at h <;> split at h <;> omega
  obtain ⟨bits⟩ := x
  obtain ⟨bits'⟩ := y
  congr
  exact UInt64.toNat_inj.mp hword

/-! ### The floats of integers -/

theorem ofInt_eq (n : Int) : ofInt n = ofParts (n < 0) (natWord n.natAbs) := by
  rw [ofInt, roundRatio, natWord, roundUnits]
  simp only [Nat.div_one, Nat.shiftLeft_eq, Nat.one_mul]

theorem natWord_lt_two_pow (k : Nat) : natWord k < 2 ^ 63 :=
  Nat.lt_of_le_of_lt (natWord_le k) (by decide)

theorem magnitude_ofInt (n : Int) : (ofInt n).magnitude = natWord n.natAbs := by
  rw [ofInt_eq]
  exact magnitude_ofParts (natWord_lt_two_pow _) _

theorem isNegative_ofInt (n : Int) : (ofInt n).isNegative = decide (n < 0) := by
  rw [ofInt_eq]
  exact isNegative_ofParts (natWord_lt_two_pow _) _

theorem isNaN_ofInt (n : Int) : (ofInt n).isNaN = false := by
  rw [isNaN, magnitude_ofInt]
  exact decide_eq_false (Nat.not_lt.mpr (natWord_le _))

theorem totalKey_ofInt (n : Int) :
    (ofInt n).totalKey = if n < 0 then -(natWord n.natAbs : Int) - 1 else natWord n.natAbs := by
  rw [totalKey, isNegative_ofInt, magnitude_ofInt]
  simp only [decide_eq_true_eq]

theorem numericKey_ofInt (n : Int) :
    (ofInt n).numericKey = if n < 0 then -(natWord n.natAbs : Int) else natWord n.natAbs := by
  rw [numericKey, isNegative_ofInt, magnitude_ofInt]
  simp only [decide_eq_true_eq]

/-- The floats of integers are in the order of the integers. -/
theorem totalKey_ofInt_mono {a b : Int} (h : a ≤ b) : (ofInt a).totalKey ≤ (ofInt b).totalKey := by
  rw [totalKey_ofInt, totalKey_ofInt]
  by_cases ha : a < 0
  · rw [if_pos ha]
    by_cases hb : b < 0
    · have hword := natWord_mono (k := b.natAbs) (l := a.natAbs) (by omega)
      rw [if_pos hb]
      omega
    · rw [if_neg hb]
      omega
  · have hword := natWord_mono (k := a.natAbs) (l := b.natAbs) (by omega)
    rw [if_neg ha, if_neg (by omega)]
    omega

theorem natWord_pos {k : Nat} (h : 0 < k) : 0 < natWord k := by
  have hlt := natWord_lt (k := 0) (by decide) h
  rwa [natWord_zero] at hlt

/-- No integer becomes a negative zero, so among the floats of integers the order of values is that
of all words. -/
theorem numericKey_ofInt_lt_iff (a b : Int) :
    (ofInt a).numericKey < (ofInt b).numericKey ↔ (ofInt a).totalKey < (ofInt b).totalKey := by
  rw [numericKey_ofInt, numericKey_ofInt, totalKey_ofInt, totalKey_ofInt]
  by_cases ha : a < 0
  · have hpos := natWord_pos (k := a.natAbs) (by omega)
    rw [if_pos ha, if_pos ha]
    split <;> omega
  · rw [if_neg ha, if_neg ha]
    split <;> omega

/-- As a float, one integer lies below another exactly when it is smaller and they do not become
the same float. -/
theorem lt_ofInt_iff (a b : Int) :
    (ofInt a).lt (ofInt b) = true ↔ a < b ∧ ofInt a ≠ ofInt b := by
  rw [lt, isNaN_ofInt, isNaN_ofInt, Bool.not_false, Bool.true_and, Bool.true_and,
    decide_eq_true_iff, numericKey_ofInt_lt_iff]
  constructor
  · intro h
    refine ⟨Int.not_le.mp fun hle => ?_, fun heq => ?_⟩
    · have hmono := totalKey_ofInt_mono hle
      omega
    · rw [heq] at h
      exact Int.lt_irrefl _ h
  · rintro ⟨hlt, hne⟩
    have hmono := totalKey_ofInt_mono (Int.le_of_lt hlt)
    have hapart : (ofInt a).totalKey ≠ (ofInt b).totalKey := fun heq => hne (totalKey_injective heq)
    omega

/-- An integer below 2⁵³ shares its float with no other. -/
theorem ofInt_inj_of_lt {a b : Int} (ha : a.natAbs < 2 ^ 53) (h : ofInt a = ofInt b) : a = b := by
  have hsign : decide (a < 0) = decide (b < 0) := by
    rw [← isNegative_ofInt, ← isNegative_ofInt, h]
  have hword : natWord a.natAbs = natWord b.natAbs := by
    rw [← magnitude_ofInt, ← magnitude_ofInt, h]
  have habs : a.natAbs = b.natAbs := by
    rcases Nat.lt_trichotomy a.natAbs b.natAbs with hlt | heq | hgt
    · have := natWord_lt ha hlt
      omega
    · exact heq
    · have := natWord_lt (by omega) hgt
      omega
  have hiff : a < 0 ↔ b < 0 := decide_eq_decide.mp hsign
  omega

example : ofInt (2 ^ 53) = ofInt (2 ^ 53 + 1) := by decide +kernel

/-- Between two integers that share a float, all do. -/
theorem ofInt_eq_of_between {a b c : Int} (hab : a ≤ b) (hbc : b ≤ c) (h : ofInt a = ofInt c) :
    ofInt a = ofInt b := by
  have hlower := totalKey_ofInt_mono hab
  have hupper := totalKey_ofInt_mono hbc
  rw [← h] at hupper
  exact totalKey_injective (Int.le_antisymm hlower hupper)

end TextAdventure.Binary64
