import Keypad.Display.Rounding
import Mathlib.Tactic.Ring

/-!
# Magnitudes below the digit ceiling

The digits before the point are counted by a computed logarithm, which may count one too many just
below a power of ten.  So a value within the ceiling is below the power of ten of its digits, and a
value well below that power is within the ceiling.

## Main results

* `magnitude_lt_of_exceedsCeiling`: a value within the ceiling is below `10 ^ 12`
* `exceedsCeiling_of_magnitude_lt`: a value below `2 ^ 39` is within the ceiling
-/

namespace Keypad

variable {n quanta : Nat}

theorem digitLength_le_iff {k : Nat} (hk : 0 < k) : digitLength n ≤ k ↔ n < 10 ^ k := by
  unfold digitLength
  split
  · rename_i hzero
    subst hzero
    simp
  · exact Nat.length_toDigits_le_iff (by decide) hk

theorem decade_le_iff {k : Nat} (hk : 0 < k) :
    decade quanta quantaPerUnit ≤ (k : Int) - 1 ↔ quanta < 10 ^ k * quantaPerUnit := by
  by_cases h : quantaPerUnit ≤ quanta
  · rw [decade_of_le h, ← Nat.div_lt_iff_lt_mul quantaPerUnit_pos, ← digitLength_le_iff hk]
    omega
  · have hone : 1 * quantaPerUnit ≤ 10 ^ k * quantaPerUnit :=
      Nat.mul_le_mul_right _ (Nat.pow_pos (by decide))
    unfold decade
    rw [if_neg h]
    omega

/-- A tenth below a power of ten the logarithm counts no digit too many. -/
theorem floorLog_lt {k : Nat} (hk : 0 < k) (h : 10 * quanta ≤ 9 * (10 ^ k * quantaPerUnit)) :
    Binary64.floorLog quanta < k := by
  have hpos : 0 < 10 ^ k * quantaPerUnit :=
    Nat.mul_pos (Nat.pow_pos (by decide)) quantaPerUnit_pos
  have hdecade : decade quanta quantaPerUnit ≤ (k : Int) - 1 := (decade_le_iff hk).mpr (by omega)
  rcases Int.lt_or_eq_of_le hdecade with hlt | heq
  · have := (Binary64.floorLog_bounds quanta).2
    omega
  · have hnot : Binary64.isJustBelow (decade quanta quantaPerUnit + 1) quanta quantaPerUnit =
        false := by
      rw [heq, Int.sub_add_cancel, Binary64.isJustBelow, if_pos (Int.natCast_nonneg k),
        Int.toNat_natCast]
      refine decide_eq_false ?_
      omega
    rw [Binary64.floorLog_of_not_isJustBelow hnot]
    omega

namespace Binary64

variable {x : Binary64}

theorem magnitude_lt_of_exceedsCeiling (h : x.exceedsCeiling = false) :
    x.magnitude < 10 ^ digitCeiling * quantaPerUnit := by
  have hpos : 0 < 10 ^ digitCeiling * quantaPerUnit :=
    Nat.mul_pos (Nat.pow_pos (by decide)) quantaPerUnit_pos
  cases x with
  | nan => exact hpos
  | infinite negative => exact hpos
  | finite negative ordinal =>
    by_cases hzero : ordinal.val = 0
    · rw [magnitude, hzero]
      exact hpos
    · have hdigits : floorLog (magnitudeOf ordinal) + 1 ≤ digitCeiling := by
        simpa [exceedsCeiling, isFinite, isZero, hzero, digitsBeforePoint] using h
      have hdecade := (floorLog_bounds (magnitudeOf ordinal)).1
      have hle : decade (magnitudeOf ordinal) quantaPerUnit ≤ (digitCeiling : Int) - 1 := by omega
      exact (decade_le_iff (by decide)).mp hle

theorem exceedsCeiling_of_magnitude_lt (hfinite : x.isFinite = true)
    (h : x.magnitude < 2 ^ 39 * quantaPerUnit) : x.exceedsCeiling = false := by
  cases x with
  | nan => cases hfinite
  | infinite negative => cases hfinite
  | finite negative ordinal =>
    by_cases hzero : ordinal.val = 0
    · simp [exceedsCeiling, isFinite, isZero, hzero]
    · have hlog : floorLog (magnitudeOf ordinal) < digitCeiling := by
        refine floorLog_lt (by decide) ?_
        have hmagnitude : magnitudeOf ordinal < 2 ^ 39 * quantaPerUnit := h
        unfold digitCeiling
        omega
      have hdigits : floorLog (magnitudeOf ordinal) + 1 ≤ digitCeiling := hlog
      simpa [exceedsCeiling, isFinite, isZero, hzero, digitsBeforePoint] using hdigits

end Binary64

end Keypad
