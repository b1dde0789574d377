import Mathlib.Tactic.Linarith
import Mathlib.Tactic.Ring
import TextAdventure.Number.Decimal
import TextAdventure.Proofs.Number.Rounding
import TextAdventure.Proofs.Source.Lexing

/-!
The shortest decimal of a float reads back as that float.

A finite float is written with the fewest digits for which the decimal is nearer to it than to any
other float.  A decimal is that near when it lies in the neighbourhood of the float, and the search
for one ends before it runs out of places: in the seventeenth place behind the first digit, a step
is shorter than the neighbourhood is wide.

* `roundRatio_of_contains` — every quotient in the neighbourhood of a float is rounded to it;
* `Neighbourhood.exists_nearestStep` — the neighbourhood holds a multiple of every step that is
  shorter than it is wide;
* `shortest_mem` — the digits and the power of ten that are found lie in the neighbourhood;
* `shortest_exponent_neg` — a float that is not whole is not written without fraction digits;
* `ofDecimal_positional`, `ofDecimal_whole` — the digits around the point are read as the float;
* `literalText_of_isFinite` — the literal of a finite float reads back as that float.
-/

namespace TextAdventure.Binary64

/-! ### The parts of a finite float -/

theorem magnitude_eq_fields (x : Binary64) :
    x.magnitude = x.exponentField * 2 ^ 52 + x.fraction := by
  have hmagnitude : x.magnitude = x.word % 2 ^ 63 := rfl
  have hfraction : x.fraction = x.word % 2 ^ 52 := rfl
  rw [exponentField, Nat.shiftRight_eq_div_pow, hmagnitude, hfraction]
  omega

theorem fraction_lt (x : Binary64) : x.fraction < 2 ^ 52 := Nat.mod_lt _ (by decide)

theorem one_shiftLeft_fraction : (1 <<< 52 : Nat) = 2 ^ 52 := rfl

theorem significand_lt (x : Binary64) : x.significand < 2 ^ 53 := by
  have hlt := x.fraction_lt
  rw [significand, one_shiftLeft_fraction]
  split <;> omega

/-- The word of a float is its significand, added to its shift above the fraction bits. -/
theorem magnitude_eq (x : Binary64) : x.magnitude = x.shift * 2 ^ 52 + x.significand := by
  rw [magnitude_eq_fields, shift, significand, one_shiftLeft_fraction]
  split
  · rename_i hzero
    rw [hzero]
  · omega

theorem two_pow_le_significand {x : Binary64} (h : x.shift ≠ 0) : 2 ^ 52 ≤ x.significand := by
  rw [shift] at h
  rw [significand, if_neg (by omega), one_shiftLeft_fraction]
  omega

theorem units_eq (x : Binary64) : x.units = x.significand * 2 ^ x.shift := Nat.shiftLeft_eq _ _

theorem ofParts_magnitude (x : Binary64) : ofParts x.isNegative x.magnitude = x := by
  have hlt : x.magnitude < 2 ^ 63 := Nat.mod_lt _ (by decide)
  refine totalKey_injective ?_
  rw [totalKey, totalKey, magnitude_ofParts hlt, isNegative_ofParts hlt]

theorem unitsPerOne_pos : 0 < unitsPerOne := by
  unfold unitsPerOne
  generalize 1074 = n
  rw [Nat.one_shiftLeft]
  exact Nat.two_pow_pos n

/-! ### Rounding near a float -/

/-- A whole number no further than a half from a quotient is what the quotient is rounded to, and
just a half away if it is even. -/
theorem divRound_eq {s d q : Nat} (hd : 0 < d) (hlower : 2 * (q * d) ≤ 2 * s + d)
    (hupper : 2 * s ≤ 2 * (q * d) + d)
    (hodd : q % 2 = 1 → 2 * (q * d) < 2 * s + d ∧ 2 * s < 2 * (q * d) + d) :
    divRound s d = q := by
  obtain ⟨k, r, hs, hr⟩ : ∃ k r, s = k * d + r ∧ r < d :=
    ⟨s / d, s % d, by rw [Nat.mul_comm]; exact (Nat.div_add_mod s d).symm, Nat.mod_lt _ hd⟩
  have hk : s / d = k := by
    rw [hs, Nat.mul_comm, Nat.mul_add_div hd, Nat.div_eq_of_lt hr, Nat.add_zero]
  have hmod : s % d = r := by
    rw [hs, Nat.mul_comm, Nat.mul_add_mod, Nat.mod_eq_of_lt hr]
  have hle : k ≤ q := by
    by_contra hlt
    have := Nat.mul_le_mul_right d (show q + 1 ≤ k by omega)
    rw [Nat.succ_mul q d] at this
    omega
  have hge : q ≤ k + 1 := by
    by_contra hlt
    have := Nat.mul_le_mul_right d (show k + 2 ≤ q by omega)
    rw [Nat.add_mul] at this
    omega
  rw [divRound, hk, hmod]
  rcases Nat.lt_or_eq_of_le hle with hlt | rfl
  · obtain rfl : q = k + 1 := by omega
    rw [Nat.succ_mul k d] at hlower hupper hodd
    rw [if_neg (by omega)]
    split
    · rfl
    · have : k % 2 = 1 := by
        by_contra heven
        have := hodd (by omega)
        omega
      omega
  · split
    · rfl
    · rw [if_neg (by omega)]
      have : k % 2 = 0 := by
        by_contra hne
        have := hodd (by omega)
        omega
      omega

/-- The word of the float nearest to a quotient of units, as if there were no largest float. -/
def roundQuotient (s d : Nat) : Nat :=
  ((s / d).log2 - 52) * 2 ^ 52 + divRound s (d * 2 ^ ((s / d).log2 - 52))

theorem roundRatio_eq (negative : Bool) (n d : Nat) :
    roundRatio negative n d =
      ofParts negative (min (roundQuotient (n * unitsPerOne) d) infinityWord) := by
  rw [roundRatio, roundQuotient]
  simp only [Nat.shiftLeft_eq]

theorem log2_div_eq {s d p : Nat} (hd : 0 < d) (hlower : p = 0 ∨ 2 ^ 52 * (d * 2 ^ p) ≤ s)
    (hupper : s < 2 ^ 53 * (d * 2 ^ p)) : (s / d).log2 - 52 = p := by
  have hlt : s / d < 2 ^ (53 + p) := by
    rw [Nat.div_lt_iff_lt_mul hd, Nat.pow_add]
    calc s < 2 ^ 53 * (d * 2 ^ p) := hupper
      _ = 2 ^ 53 * 2 ^ p * d := by ring
  rcases hlower with rfl | hlower
  · by_cases hzero : s / d = 0
    · rw [hzero, Nat.log2_zero]
    · have := (Nat.log2_lt hzero).mpr hlt
      omega
  · have hle : 2 ^ (52 + p) ≤ s / d := by
      rw [Nat.le_div_iff_mul_le hd, Nat.pow_add]
      calc 2 ^ 52 * 2 ^ p * d = 2 ^ 52 * (d * 2 ^ p) := by ring
        _ ≤ s := hlower
    have hpos : s / d ≠ 0 := Nat.ne_of_gt (Nat.lt_of_lt_of_le (Nat.two_pow_pos _) hle)
    have := (Nat.log2_lt hpos).mpr hlt
    have := (Nat.le_log2 hpos).mpr hle
    omega

theorem roundQuotient_eq {s d p q : Nat} (hd : 0 < d)
    (hshift : p = 0 ∨ 2 ^ 52 * (d * 2 ^ p) ≤ s) (hupper : s < 2 ^ 53 * (d * 2 ^ p))
    (hround : divRound s (d * 2 ^ p) = q) : roundQuotient s d = p * 2 ^ 52 + q := by
  rw [roundQuotient, log2_div_eq hd hshift hupper, hround]

/-! ### Neighbourhoods -/

/-- How far a float reaches down, in quarters of the step to the next float: the floats below a
power of two lie twice as close. -/
def reachBelow (x : Binary64) : Nat := if x.fraction = 0 ∧ 1 < x.exponentField then 1 else 2

theorem neighbourhood_below (x : Binary64) :
    x.neighbourhood.below = x.reachBelow * 2 ^ x.shift := by
  rw [neighbourhood, reachBelow]
  dsimp only
  split <;> exact Nat.shiftLeft_eq _ _

theorem reachBelow_le (x : Binary64) : 1 ≤ x.reachBelow ∧ x.reachBelow ≤ 2 := by
  rw [reachBelow]
  split <;> omega

theorem reachBelow_of_power {x : Binary64} (hshift : x.shift ≠ 0)
    (hpower : x.significand = 2 ^ 52) : x.reachBelow = 1 := by
  rw [shift] at hshift
  rw [significand, if_neg (by omega), one_shiftLeft_fraction] at hpower
  exact if_pos ⟨by omega, by omega⟩

/-- The neighbourhood of a float, in quarters of the step to the next float. -/
theorem contains_iff (x : Binary64) (n d : Nat) :
    x.neighbourhood.contains n d = true ↔
      4 * (x.significand * (d * 2 ^ x.shift)) ≤
        4 * (n * unitsPerOne) + x.reachBelow * (d * 2 ^ x.shift) ∧
      4 * (n * unitsPerOne) ≤ 4 * (x.significand * (d * 2 ^ x.shift)) + 2 * (d * 2 ^ x.shift) ∧
      (x.significand % 2 = 1 →
        4 * (x.significand * (d * 2 ^ x.shift)) <
          4 * (n * unitsPerOne) + x.reachBelow * (d * 2 ^ x.shift) ∧
        4 * (n * unitsPerOne) <
          4 * (x.significand * (d * 2 ^ x.shift)) + 2 * (d * 2 ^ x.shift)) := by
  have hclosed : x.neighbourhood.closed = (x.significand % 2 == 0) := rfl
  have hlow : (x.neighbourhood.value - x.neighbourhood.below) * d =
      4 * (x.significand * (d * 2 ^ x.shift)) - x.reachBelow * (d * 2 ^ x.shift) := by
    rw [neighbourhood_below, show x.neighbourhood.value = 4 * x.units from rfl, units_eq,
      Nat.sub_mul]
    congr 1 <;> ring
  have hhigh : (x.neighbourhood.value + x.neighbourhood.above) * d =
      4 * (x.significand * (d * 2 ^ x.shift)) + 2 * (d * 2 ^ x.shift) := by
    rw [show x.neighbourhood.value = 4 * x.units from rfl, units_eq,
      show x.neighbourhood.above = 2 <<< x.shift from rfl, Nat.shiftLeft_eq]
    ring
  have hscale : n * x.neighbourhood.scale = 4 * (n * unitsPerOne) := by
    rw [show x.neighbourhood.scale = 4 * unitsPerOne from rfl]
    ring
  rw [Neighbourhood.contains, hclosed, hlow, hhigh, hscale]
  split
  · rename_i heven
    rw [beq_iff_eq] at heven
    rw [Bool.and_eq_true, decide_eq_true_iff, decide_eq_true_iff]
    omega
  · rename_i hodd
    rw [beq_iff_eq] at hodd
    -- an odd significand is at least one, so nothing is cut off at zero
    have hpos : 1 * (d * 2 ^ x.shift) ≤ x.significand * (d * 2 ^ x.shift) :=
      Nat.mul_le_mul_right _ (by omega)
    have hreach := Nat.mul_le_mul_right (d * 2 ^ x.shift) x.reachBelow_le.2
    rw [Bool.and_eq_true, decide_eq_true_iff, decide_eq_true_iff]
    omega

theorem magnitude_lt_of_isFinite {x : Binary64} (h : x.isFinite = true) :
    x.magnitude < infinityWord := by
  simpa [isFinite] using h

/-- Every quotient in the neighbourhood of a float has the word of the float. -/
theorem roundQuotient_of_contains {x : Binary64} {n d : Nat} (hd : 0 < d)
    (h : x.neighbourhood.contains n d = true) :
    roundQuotient (n * unitsPerOne) d = x.magnitude := by
  obtain ⟨hlower, hupper, hodd⟩ := (contains_iff x n d).mp h
  have hlt := x.significand_lt
  have hreach := Nat.mul_le_mul_right (d * 2 ^ x.shift) x.reachBelow_le.2
  have hstep : 0 < d * 2 ^ x.shift := Nat.mul_pos hd (Nat.two_pow_pos _)
  rw [magnitude_eq]
  by_cases hbinade : x.shift = 0 ∨ 2 ^ 52 * (d * 2 ^ x.shift) ≤ n * unitsPerOne
  · refine roundQuotient_eq hd hbinade ?_ (divRound_eq hstep (by omega) (by omega) (by omega))
    have hnext := Nat.mul_le_mul_right (d * 2 ^ x.shift) (show x.significand + 1 ≤ 2 ^ 53 by omega)
    rw [Nat.succ_mul x.significand] at hnext
    omega
  · -- below a power of two, where the steps are half as long and the significand carries
    obtain ⟨hshift, hbelow⟩ := not_or.mp hbinade
    have hnormal := two_pow_le_significand hshift
    have hpower : x.significand = 2 ^ 52 := by
      by_contra hne
      have hnext := Nat.mul_le_mul_right (d * 2 ^ x.shift)
        (show 2 ^ 52 + 1 ≤ x.significand by omega)
      rw [Nat.succ_mul (2 ^ 52)] at hnext
      omega
    have hone : x.reachBelow = 1 := reachBelow_of_power hshift hpower
    obtain ⟨p, hp⟩ := Nat.exists_eq_succ_of_ne_zero hshift
    have hhalf : d * 2 ^ x.shift = 2 * (d * 2 ^ p) := by
      rw [hp, Nat.succ_eq_add_one, Nat.pow_succ]
      ring
    rw [hone, hpower, hhalf] at hlower
    rw [hpower, hhalf] at hupper
    rw [hhalf] at hbelow hstep
    have hcarry := roundQuotient_eq (p := p) (q := 2 ^ 53) hd (.inr (by omega)) (by omega)
      (divRound_eq (s := n * unitsPerOne) (by omega) (by omega) (by omega) (by omega))
    rw [hcarry, hp, hpower]
    omega

/-- Every quotient in the neighbourhood of a float is rounded to it. -/
theorem roundRatio_of_contains {x : Binary64} (hx : x.isFinite = true) {n d : Nat} (hd : 0 < d)
    (h : x.neighbourhood.contains n d = true) : roundRatio x.isNegative n d = x := by
  have hlt := magnitude_lt_of_isFinite hx
  rw [roundRatio_eq, roundQuotient_of_contains hd h, Nat.min_eq_left (Nat.le_of_lt hlt),
    ofParts_magnitude]

/-! ### Steps of a power of ten -/

/-- The numerator of a power of ten. -/
def tenNum (e : Int) : Nat := if 0 ≤ e then 10 ^ e.natAbs else 1

/-- The denominator of a power of ten. -/
def tenDen (e : Int) : Nat := if 0 ≤ e then 1 else 10 ^ e.natAbs

theorem tenNum_pos (e : Int) : 0 < tenNum e := by
  rw [tenNum]
  split
  · exact Nat.pow_pos (by decide)
  · exact Nat.one_pos

theorem tenDen_pos (e : Int) : 0 < tenDen e := by
  rw [tenDen]
  split
  · exact Nat.one_pos
  · exact Nat.pow_pos (by decide)

/-- Powers of ten as quotients, one `k` places above the other. -/
theorem tenNum_add (e : Int) (k : Nat) :
    tenNum (e + k) * tenDen e = 10 ^ k * (tenNum e * tenDen (e + k)) := by
  rw [tenNum, tenNum, tenDen, tenDen]
  by_cases he : 0 ≤ e
  · have hsum : (e + k).natAbs = k + e.natAbs := by omega
    rw [if_pos he, if_pos he, if_pos (by omega), if_pos (by omega), hsum, Nat.pow_add]
    ring
  · rw [if_neg he, if_neg he]
    by_cases hek : 0 ≤ e + k
    · have hsum : k = (e + k).natAbs + e.natAbs := by omega
      rw [if_pos hek, if_pos hek, ← Nat.pow_add, ← hsum]
      ring
    · have hsum : e.natAbs = k + (e + k).natAbs := by omega
      rw [if_neg hek, if_neg hek, hsum, Nat.pow_add]
      ring

namespace Neighbourhood

/-- The multiple of a power of ten in the neighbourhood. -/
def stepAt (i : Neighbourhood) (e : Int) : Option Nat := i.nearestStep (tenNum e) (tenDen e)

/-- A multiple that is found lies in the neighbourhood. -/
theorem contains_of_nearestStep {i : Neighbourhood} {num den k : Nat}
    (h : i.nearestStep num den = some k) : i.contains (k * num) den = true := by
  rw [nearestStep] at h
  split at h
  · rename_i hlower hupper
    cases h
    split <;> assumption
  · rename_i hlower hupper
    cases h
    exact hlower
  · rename_i hlower hupper
    cases h
    exact hupper
  · cases h

theorem contains_of_lt {i : Neighbourhood} {p q : Nat}
    (hlow : (i.value - i.below) * q < p * i.scale)
    (hhigh : p * i.scale < (i.value + i.above) * q) : i.contains p q = true := by
  rw [contains]
  split
  · rw [Bool.and_eq_true, decide_eq_true_iff, decide_eq_true_iff]
    exact ⟨Nat.le_of_lt hlow, Nat.le_of_lt hhigh⟩
  · rw [Bool.and_eq_true, decide_eq_true_iff, decide_eq_true_iff]
    exact ⟨hlow, hhigh⟩

/-- A multiple is found wherever a step is shorter than the neighbourhood is wide. -/
theorem exists_nearestStep {i : Neighbourhood} {num den : Nat} (hbelow : i.below ≤ i.value)
    (hbelow' : 0 < i.below * den) (habove : 0 < i.above * den)
    (hunit : 0 < i.scale * num) (hstep : i.scale * num < (i.below + i.above) * den) :
    ∃ k, i.nearestStep num den = some k := by
  have hsplit := Nat.div_add_mod (i.value * den) (i.scale * num)
  have hrest := Nat.mod_lt (i.value * den) hunit
  have hvalue := Nat.mul_le_mul_right den hbelow
  rw [nearestStep]
  generalize i.value * den / (i.scale * num) = lower at *
  have hlow : lower * num * i.scale = i.scale * num * lower := by ring
  have hup : (lower + 1) * num * i.scale = i.scale * num * lower + i.scale * num := by ring
  rw [Nat.add_mul] at hstep
  split
  · exact ⟨_, rfl⟩
  · exact ⟨_, rfl⟩
  · exact ⟨_, rfl⟩
  · -- the two multiples would lie on either side of the neighbourhood, a step apart
    rename_i hlower hupper
    exfalso
    have hleft : lower * num * i.scale ≤ (i.value - i.below) * den := by
      by_contra hlt
      rw [contains_of_lt (by omega) (by rw [Nat.add_mul]; omega)] at hlower
      cases hlower
    have hright : (i.value + i.above) * den ≤ (lower + 1) * num * i.scale := by
      by_contra hlt
      rw [contains_of_lt (by rw [Nat.sub_mul]; omega) (by omega)] at hupper
      cases hupper
    rw [Nat.sub_mul] at hleft
    rw [Nat.add_mul i.value] at hright
    omega

/-- The search ends at the first power of ten that has a multiple in the neighbourhood. -/
theorem search_spec {i : Neighbourhood} : ∀ {steps : Nat} {e : Int} {j : Nat}, j < steps →
    (∃ k, i.stepAt (e - j) = some k) → ∃ k e', i.search steps e = (k, e') ∧ i.stepAt e' = some k
  | 0, _, _, hj, _ => absurd hj (Nat.not_lt_zero _)
  | steps + 1, e, j, hj, hfound => by
    have hstep : (if 0 ≤ e then i.nearestStep (Nat.pow 10 e.natAbs) 1
        else i.nearestStep 1 (Nat.pow 10 e.natAbs)) = i.stepAt e := by
      rw [stepAt, tenNum, tenDen]
      split <;> rfl
    rw [search, hstep]
    cases hhere : i.stepAt e with
    | some k => exact ⟨k, e, rfl, hhere⟩
    | none =>
      cases j with
      | zero =>
        obtain ⟨k, hk⟩ := hfound
        rw [Int.natCast_zero, Int.sub_zero, hhere] at hk
        cases hk
      | succ j =>
        refine search_spec (j := j) (by omega) ?_
        rwa [Int.sub_sub, Int.add_comm 1, ← Int.natCast_succ]

end Neighbourhood

/-! ### The search from above -/

theorem natDigits_length_pos (n : Nat) : 0 < (natDigits n).length :=
  List.length_pos_iff.mpr (isDigits_natDigits n).1

theorem lt_ten_pow_length (n : Nat) : n < 10 ^ (natDigits n).length :=
  (Nat.length_toDigits_le_iff (by decide) (natDigits_length_pos n)).mp (Nat.le_refl _)

theorem ten_pow_length_le {n : Nat} (hn : n ≠ 0) : 10 ^ ((natDigits n).length - 1) ≤ n := by
  have hpos := natDigits_length_pos n
  by_cases hone : (natDigits n).length = 1
  · rw [hone]
    exact Nat.one_le_iff_ne_zero.mpr hn
  · by_contra hlt
    have hle : (natDigits n).length ≤ (natDigits n).length - 1 :=
      (Nat.length_toDigits_le_iff (b := 10) (by decide) (by omega)).mpr (by omega)
    omega

/-- A float is at least a tenth of the power of ten at which its search begins. -/
theorem upperExponent_spec {x : Binary64} (hx : x.units ≠ 0) :
    tenNum (x.upperExponent - 1) * unitsPerOne ≤ tenDen (x.upperExponent - 1) * x.units := by
  have hone := unitsPerOne_pos
  rw [upperExponent]
  by_cases hwhole : x.units / unitsPerOne = 0
  · have hlt := lt_ten_pow_length (unitsPerOne / x.units)
    have hlen := natDigits_length_pos (unitsPerOne / x.units)
    rw [if_pos hwhole, tenNum, tenDen, if_neg (by omega), if_neg (by omega), Nat.one_mul]
    rw [Nat.div_lt_iff_lt_mul (Nat.pos_of_ne_zero hx)] at hlt
    have habs : (-((natDigits (unitsPerOne / x.units)).length - 1 : Int) - 1).natAbs =
        (natDigits (unitsPerOne / x.units)).length := by omega
    rw [habs]
    exact Nat.le_of_lt hlt
  · have hle := ten_pow_length_le hwhole
    have hlen := natDigits_length_pos (x.units / unitsPerOne)
    rw [if_neg hwhole, tenNum, tenDen, if_pos (by omega), if_pos (by omega), Nat.one_mul]
    rw [Nat.le_div_iff_mul_le hone] at hle
    have habs : ((natDigits (x.units / unitsPerOne)).length - 1 : Int).natAbs =
        (natDigits (x.units / unitsPerOne)).length - 1 := by omega
    rwa [habs]

/-- So it is so many steps of a later power of ten. -/
theorem tenNum_upperExponent_le {x : Binary64} (hx : x.units ≠ 0) (k : Nat) :
    10 ^ k * (tenNum (x.upperExponent - 1 - k) * unitsPerOne) ≤
      x.units * tenDen (x.upperExponent - 1 - k) := by
  have hadd := tenNum_add (x.upperExponent - 1 - k) k
  rw [Int.sub_add_cancel] at hadd
  refine Nat.le_of_mul_le_mul_left ?_ (tenDen_pos (x.upperExponent - 1))
  calc tenDen (x.upperExponent - 1) *
        (10 ^ k * (tenNum (x.upperExponent - 1 - k) * unitsPerOne))
      = 10 ^ k * (tenNum (x.upperExponent - 1 - k) * tenDen (x.upperExponent - 1)) *
          unitsPerOne := by ring
    _ = tenNum (x.upperExponent - 1) * unitsPerOne * tenDen (x.upperExponent - 1 - k) := by
        rw [← hadd]
        ring
    _ ≤ tenDen (x.upperExponent - 1) * x.units * tenDen (x.upperExponent - 1 - k) :=
        Nat.mul_le_mul_right _ (upperExponent_spec hx)
    _ = tenDen (x.upperExponent - 1) * (x.units * tenDen (x.upperExponent - 1 - k)) :=
        Nat.mul_assoc _ _ _

/-- Eighteen places below the power of ten at which the search begins, a step is shorter than the
neighbourhood is wide. -/
theorem exists_stepAt {x : Binary64} (hx : x.units ≠ 0) :
    ∃ k, x.neighbourhood.stepAt (x.upperExponent - 1 - 17) = some k := by
  have hpos : 0 < 2 ^ x.shift := Nat.two_pow_pos _
  have hone := unitsPerOne_pos
  have hden := tenDen_pos (x.upperExponent - 1 - 17)
  have hreach := x.reachBelow_le
  have habove : x.neighbourhood.above = 2 * 2 ^ x.shift := Nat.shiftLeft_eq _ _
  have hsignificand : x.significand ≠ 0 := by
    intro hzero
    rw [units_eq, hzero, Nat.zero_mul] at hx
    exact hx rfl
  refine Neighbourhood.exists_nearestStep ?_ ?_ ?_ ?_ ?_
  · rw [neighbourhood_below, show x.neighbourhood.value = 4 * x.units from rfl, units_eq,
      ← Nat.mul_assoc]
    exact Nat.mul_le_mul_right _ (by omega)
  · rw [neighbourhood_below]
    exact Nat.mul_pos (Nat.mul_pos (by omega) hpos) hden
  · rw [habove]
    exact Nat.mul_pos (Nat.mul_pos (by decide) hpos) hden
  · exact Nat.mul_pos (Nat.mul_pos (by decide) hone) (tenNum_pos _)
  · have hlower := tenNum_upperExponent_le hx 17
    rw [Nat.cast_ofNat] at hlower
    have hupper : x.units * tenDen (x.upperExponent - 1 - 17) ≤
        2 ^ 53 * (2 ^ x.shift * tenDen (x.upperExponent - 1 - 17)) := by
      rw [units_eq, Nat.mul_assoc]
      exact Nat.mul_le_mul_right _ (Nat.le_of_lt x.significand_lt)
    have hwidth : 3 * (2 ^ x.shift * tenDen (x.upperExponent - 1 - 17)) ≤
        (x.neighbourhood.below + x.neighbourhood.above) * tenDen (x.upperExponent - 1 - 17) := by
      rw [neighbourhood_below, habove, ← Nat.add_mul, Nat.mul_assoc]
      exact Nat.mul_le_mul_right _ (by omega)
    have hscale : x.neighbourhood.scale * tenNum (x.upperExponent - 1 - 17) =
        4 * (tenNum (x.upperExponent - 1 - 17) * unitsPerOne) := by
      rw [show x.neighbourhood.scale = 4 * unitsPerOne from rfl]
      ring
    have hwide : 0 < 2 ^ x.shift * tenDen (x.upperExponent - 1 - 17) := Nat.mul_pos hpos hden
    rw [hscale]
    -- 2⁵⁵ is less than three times 10¹⁷
    refine Nat.lt_of_lt_of_le ?_ hwidth
    omega

/-- The digits and the power of ten that are found lie in the neighbourhood. -/
theorem shortest_mem {x : Binary64} (hx : x.units ≠ 0) :
    x.neighbourhood.contains (x.shortest.1 * tenNum x.shortest.2) (tenDen x.shortest.2) = true := by
  have hplace : x.upperExponent - 1 - 17 = x.upperExponent - (18 : Nat) := by omega
  have hfound := exists_stepAt hx
  rw [hplace] at hfound
  obtain ⟨k, e, hsearch, hstep⟩ := Neighbourhood.search_spec (by decide : 18 < 20) hfound
  rw [shortest, hsearch]
  exact Neighbourhood.contains_of_nearestStep hstep

theorem eq_of_mul_near {a b q : Nat} (hq : 0 < q) (hle : 4 * (a * q) ≤ 4 * (b * q) + 2 * q)
    (hge : 4 * (b * q) ≤ 4 * (a * q) + 2 * q) : a = b := by
  rcases Nat.lt_trichotomy a b with hlt | heq | hgt
  · have := Nat.mul_le_mul_right q hlt
    rw [Nat.succ_mul a q] at this
    omega
  · exact heq
  · have := Nat.mul_le_mul_right q hgt
    rw [Nat.succ_mul b q] at this
    omega

/-- A float is whole when a whole number lies in its neighbourhood: below 2⁵³ the whole numbers lie
a step apart or more, and beyond there are no fractions. -/
theorem isWhole_of_contains {x : Binary64} (hx : x.isFinite = true) {n : Nat}
    (h : x.neighbourhood.contains n 1 = true) : x.isWhole = true := by
  have hwhole : x.units % unitsPerOne = 0 := by
    obtain ⟨hlower, hupper, -⟩ := (contains_iff x n 1).mp h
    have hreach := Nat.mul_le_mul_right (1 * 2 ^ x.shift) x.reachBelow_le.2
    -- the exponent is too large for the power to be evaluated
    obtain ⟨w, hw⟩ : ∃ w, w = 1074 := ⟨_, rfl⟩
    rw [unitsPerOne_eq, ← hw] at hlower hupper ⊢
    rw [units_eq]
    by_cases hlarge : w ≤ x.shift
    · obtain ⟨k, hk⟩ := Nat.exists_eq_add_of_le hlarge
      rw [hk, Nat.pow_add, Nat.mul_left_comm]
      exact Nat.mul_mod_right _ _
    · obtain ⟨k, hk⟩ := Nat.exists_eq_add_of_le (Nat.le_of_not_le hlarge)
      have hsplit : n * 2 ^ w = n * 2 ^ k * 2 ^ x.shift := by
        rw [hk, Nat.pow_add]
        ring
      rw [hsplit, Nat.one_mul] at hlower hupper
      rw [Nat.one_mul] at hreach
      rw [eq_of_mul_near (Nat.two_pow_pos x.shift) (Nat.le_trans hlower (by omega)) hupper,
        ← hsplit]
      exact Nat.mul_mod_left _ _
  rw [isWhole, hx, hwhole]
  rfl

theorem shortest_exponent_neg {x : Binary64} (hx : x.isFinite = true) (hwhole : x.isWhole = false)
    (hunits : x.units ≠ 0) : x.shortest.2 < 0 := by
  by_contra hneg
  have hmem := shortest_mem hunits
  rw [tenDen, if_pos (by omega)] at hmem
  rw [isWhole_of_contains hx hmem] at hwhole
  cases hwhole

/-! ### Written out -/

-- the quantifier is over the characters of the text, not over all characters.
instance (cs : List Char) : Decidable (IsDigits cs) :=
  @instDecidableAnd _ _ inferInstance (List.decidableBAll _ cs)

theorem units_ne_zero {x : Binary64} (hx : x.isFinite = true) (hwhole : x.isWhole = false) :
    x.units ≠ 0 := by
  intro hzero
  rw [isWhole, hx, hzero, Nat.zero_mod] at hwhole
  cases hwhole

theorem isZero_eq_false {x : Binary64} (hunits : x.units ≠ 0) : x.isZero = false := by
  rw [isZero, beq_eq_false_iff_ne, magnitude_eq]
  intro hzero
  rw [units_eq, show x.significand = 0 by omega, Nat.zero_mul] at hunits
  exact hunits rfl

theorem digitsValue_replicate_zero (k : Nat) (cs : List Char) :
    digitsValue (List.replicate k '0' ++ cs) = digitsValue cs := by
  induction k with
  | zero => rfl
  | succ k ih => exact ih

theorem digitsValue_concat_zero (cs : List Char) :
    digitsValue (cs ++ ['0']) = digitsValue cs * 10 := by
  rw [digitsValue, List.foldl_append]
  rfl

/-- A number with digits behind the point, written out. -/
theorem positional_of_neg (n : Nat) {e : Int} (he : e < 0) :
    ∃ whole fraction, positional n e = whole ++ '.' :: fraction ∧ IsDigits whole ∧
      IsDigits fraction ∧ digitsValue (whole ++ fraction) = n ∧ fraction.length = e.natAbs := by
  obtain ⟨-, hdigits⟩ := isDigits_natDigits n
  have hlength := natDigits_length_pos n
  let padded := List.replicate (e.natAbs + 1 - (natDigits n).length) '0' ++ natDigits n
  have hpadded : e.natAbs < padded.length := by
    rw [List.length_append, List.length_replicate]
    omega
  have hall : ∀ c ∈ padded, isDigit c = true := by
    intro c hc
    rcases List.mem_append.mp hc with hzero | hdigit
    · rw [(List.mem_replicate.mp hzero).2]
      decide
    · exact hdigits c hdigit
  refine ⟨padded.take (padded.length - e.natAbs), padded.drop (padded.length - e.natAbs), ?_,
    ⟨?_, fun c hc => hall c (List.mem_of_mem_take hc)⟩,
    ⟨?_, fun c hc => hall c (List.mem_of_mem_drop hc)⟩, ?_, ?_⟩
  · rw [positional, if_neg (by omega)]
  · rw [← List.length_pos_iff, List.length_take]
    omega
  · rw [← List.length_pos_iff, List.length_drop]
    omega
  · rw [List.take_append_drop, digitsValue_replicate_zero, digitsValue_natDigits]
  · rw [List.length_drop]
    omega

/-- The digits of a float that is not whole are read as the float. -/
theorem ofDecimal_positional {x : Binary64} (hx : x.isFinite = true) (hwhole : x.isWhole = false) :
    ∃ whole fraction, positional x.shortest.1 x.shortest.2 = whole ++ '.' :: fraction ∧
      IsDigits whole ∧ IsDigits fraction ∧ ofDecimal x.isNegative whole fraction = x := by
  have hunits := units_ne_zero hx hwhole
  have hneg := shortest_exponent_neg hx hwhole hunits
  have hmem := shortest_mem hunits
  obtain ⟨whole, fraction, htext, hwholes, hfractions, hvalue, hlength⟩ :=
    positional_of_neg x.shortest.1 hneg
  refine ⟨whole, fraction, htext, hwholes, hfractions, ?_⟩
  rw [tenNum, tenDen, if_neg (by omega), if_neg (by omega), Nat.mul_one] at hmem
  rw [ofDecimal, hvalue, hlength]
  exact roundRatio_of_contains hx (Nat.pow_pos (by decide)) hmem

/-- The digits of a whole float are read as the float, with a zero behind the point. -/
theorem ofDecimal_whole {x : Binary64} (hwhole : x.isWhole = true) :
    ofDecimal x.isNegative (natDigits (x.units / unitsPerOne)) ['0'] = x := by
  rw [isWhole, Bool.and_eq_true, beq_iff_eq] at hwhole
  have hunits : x.units / unitsPerOne * 10 * unitsPerOne = x.significand * (10 * 2 ^ x.shift) := by
    calc x.units / unitsPerOne * 10 * unitsPerOne
        = 10 * (x.units / unitsPerOne * unitsPerOne) := by ring
      _ = 10 * x.units := by rw [Nat.div_mul_cancel (Nat.dvd_of_mod_eq_zero hwhole.2)]
      _ = x.significand * (10 * 2 ^ x.shift) := by
          rw [units_eq]
          ring
  have hmem : x.neighbourhood.contains (x.units / unitsPerOne * 10) 10 = true := by
    have hstep : 0 < x.reachBelow * (10 * 2 ^ x.shift) :=
      Nat.mul_pos x.reachBelow_le.1 (Nat.mul_pos (by decide) (Nat.two_pow_pos _))
    have hstep' : 0 < 10 * 2 ^ x.shift := Nat.mul_pos (by decide) (Nat.two_pow_pos _)
    rw [contains_iff, hunits]
    omega
  rw [ofDecimal, digitsValue_concat_zero, digitsValue_natDigits]
  exact roundRatio_of_contains hwhole.1 (Nat.pow_pos (by decide)) hmem

/-- The literal of a finite float is a sign and two runs of digits around a point, and is read as
the float. -/
theorem literalText_of_isFinite {x : Binary64} (hx : x.isFinite = true) :
    ∃ whole fraction, x.literalText.toList =
        (if x.isNegative then ['-'] else []) ++ (whole ++ '.' :: fraction) ∧
      IsDigits whole ∧ IsDigits fraction ∧ ofDecimal x.isNegative whole fraction = x := by
  cases hwhole : x.isWhole with
  | true =>
    refine ⟨natDigits (x.units / unitsPerOne), ['0'], ?_, isDigits_natDigits _, by decide,
      ofDecimal_whole hwhole⟩
    rw [literalText, if_pos hwhole, String.toList_ofList, List.append_assoc]
  | false =>
    obtain ⟨whole, fraction, htext, hwholes, hfractions, hread⟩ := ofDecimal_positional hx hwhole
    refine ⟨whole, fraction, ?_, hwholes, hfractions, hread⟩
    have hlt := magnitude_lt_of_isFinite hx
    have hnan : x.isNaN = false := decide_eq_false (by omega)
    have hinfinite : x.isInfinite = false := by
      rw [isInfinite, beq_eq_false_iff_ne]
      omega
    rw [literalText, if_neg (by simp [hwhole]), text, hnan, hinfinite,
      isZero_eq_false (units_ne_zero hx hwhole)]
    simp only [Bool.false_eq_true, if_false, String.toList_ofList]
    exact congrArg _ htext

end TextAdventure.Binary64
