/-!
Letter case of names.

Every name of the language — of objects, routines, variables, flags, properties and
words — is compared without regard to the case of the letters A to Z; all other letters are
kept apart.  A name is stored in its *canonical* spelling, so that comparing names is comparing
strings.

Main statements:
* `canonical_canonical` — the canonical spelling is its own canonical spelling;
* `sameLetters_iff` — two names agree up to letter case when their canonical spellings agree.
-/

namespace TextAdventure

/-- The canonical spelling of a name: the letters a to z become A to Z. -/
def canonical (s : String) : String := String.ofList (s.toList.map Char.toUpper)

/-- The spelling with A to Z replaced by a to z. -/
def lowercase (s : String) : String := String.ofList (s.toList.map Char.toLower)

/-- Whether two names differ at most in the case of the letters A to Z. -/
def sameLetters (s t : String) : Bool := canonical s == canonical t

/-! ### Laws -/

/-- Raising a raised letter changes nothing. -/
theorem toUpper_toUpper (c : Char) : c.toUpper.toUpper = c.toUpper := by
  by_cases h : 'a'.val ≤ c.val ∧ c.val ≤ 'z'.val
  · have hup : c.toUpper.val = c.val + ('A'.val - 'a'.val) := by
      rw [Char.toUpper.eq_def c, dif_pos h]
    have hno : ¬ ('a'.val ≤ c.toUpper.val ∧ c.toUpper.val ≤ 'z'.val) := by
      rw [hup]
      intro hc
      obtain ⟨h1, h2⟩ := h
      obtain ⟨h3, h4⟩ := hc
      have ha : 'a'.val.toNat = 97 := rfl
      have hz : 'z'.val.toNat = 122 := rfl
      have hA : ('A'.val - 'a'.val).toNat = 4294967264 := rfl
      rw [UInt32.le_iff_toNat_le] at h1 h2 h3 h4
      rw [UInt32.toNat_add] at h3 h4
      omega
    rw [Char.toUpper.eq_def c.toUpper, dif_neg hno]
  · have hup : c.toUpper = c := by rw [Char.toUpper.eq_def c, dif_neg h]
    rw [hup, hup]

theorem canonical_canonical (s : String) : canonical (canonical s) = canonical s := by
  simp only [canonical, String.toList_ofList, List.map_map, Function.comp_def, toUpper_toUpper]

theorem sameLetters_iff {s t : String} : sameLetters s t = true ↔ canonical s = canonical t := by
  simp [sameLetters]

end TextAdventure
