import Keypad.Proofs.Binary64.Order

/-!
# Rounding beyond the finite range

The greatest finite value is `2 ^ 1024 - 2 ^ 971`.  A quotient is rounded to infinity from half a
spacing above it on: the tie goes to the even neighbour, which would be `2 ^ 1024`.

## Main definitions

* `overflowThreshold`: the least number that is rounded to infinity
* `greatestFinite`, `greatestDecade`: the greatest finite number, and its decimal exponent

## Main results

* `isFinite_ofQuotient_iff`: which quotients are rounded to finite values
* `magnitude_le_greatest`: the greatest finite magnitude
-/

namespace Keypad

/-- The least number of units that is rounded to infinity. -/
def overflowThreshold : Nat := 2 ^ 1024 - 2 ^ 970

/-- The greatest finite number of units. -/
def greatestFinite : Nat := 2 ^ 1024 - 2 ^ 971

/-- The decimal exponent of the greatest finite values. -/
def greatestDecade : Nat := 308

/-- The end of the finite range is in the first half of its decade. -/
theorem greatestFinite_bounds :
    10 ^ greatestDecade ≤ greatestFinite ∧ greatestFinite < overflowThreshold ∧
      overflowThreshold < 2 * 10 ^ greatestDecade := by
  decide +kernel

theorem overflowThreshold_pos : 0 < overflowThreshold :=
  Nat.lt_of_le_of_lt (Nat.zero_le _) greatestFinite_bounds.2.1

theorem ten_pow_greatestDecade_lt : 10 ^ greatestDecade < overflowThreshold :=
  Nat.lt_of_le_of_lt greatestFinite_bounds.1 greatestFinite_bounds.2.1

/-- The threshold, in spacings of the last run of magnitudes. -/
theorem two_mul_overflowThreshold :
    2 * (overflowThreshold * quantaPerUnit) = (2 * (2 ^ 53 - 1) + 1) * 2 ^ 2045 := by
  decide +kernel

theorem nearestOrdinal_overflowThreshold :
    nearestOrdinal (overflowThreshold * quantaPerUnit) 1 = ordinalCount := by
  decide +kernel

variable {num den : Nat}

/-- The end of a run of magnitudes, in its spacings. -/
theorem two_pow_add_mul (e den : Nat) : 2 ^ (53 + e) * den = 2 ^ 53 * (den * 2 ^ e) := by
  rw [Nat.pow_add]
  ring

/-- Below a half, the rounding is at most the whole number below. -/
theorem roundEven_le_of_lt {k : Nat} (hden : 0 < den) (h : 2 * num < (2 * k + 1) * den) :
    roundEven num den ≤ k := by
  obtain ⟨-, hhigh⟩ := roundEven_bounds num den hden
  by_contra hlt
  have hnext : 2 * (k + 1) * den ≤ 2 * roundEven num den * den :=
    Nat.mul_le_mul_right _ (Nat.mul_le_mul_left _ (Nat.lt_of_not_le hlt))
  have hexpand : 2 * (k + 1) * den = (2 * k + 1) * den + den := by ring
  omega

/-- Below the threshold the nearest ordinal is that of a finite value. -/
theorem nearestOrdinal_lt_of_lt (hden : 0 < den)
    (h : num < overflowThreshold * quantaPerUnit * den) :
    nearestOrdinal num den < ordinalCount := by
  have hthreshold := two_mul_overflowThreshold
  have hdouble : 2 * num < (2 * (2 ^ 53 - 1) + 1) * (den * 2 ^ 2045) := by
    calc 2 * num < 2 * (overflowThreshold * quantaPerUnit * den) := by omega
      _ = 2 * (overflowThreshold * quantaPerUnit) * den := by ring
      _ = (2 * (2 ^ 53 - 1) + 1) * (den * 2 ^ 2045) := by
        rw [hthreshold, Nat.mul_assoc, Nat.mul_comm den]
  have hsmall : num < 2 ^ (53 + 2045) * den := by
    rw [two_pow_add_mul]
    omega
  have hspacing : spacingExponent num den ≤ 2045 := spacingExponent_le hsmall
  rw [nearestOrdinal_eq]
  generalize he : spacingExponent num den = e at hspacing
  have hpos : 0 < den * 2 ^ e := Nat.mul_pos hden (Nat.two_pow_pos e)
  rcases Nat.lt_or_eq_of_le hspacing with hlt | rfl
  · -- in a run before the last one no rounding leaves the range
    have hround : roundEven num (den * 2 ^ e) ≤ 2 ^ 53 := by
      refine roundEven_le_of_le hpos ?_
      rw [← two_pow_add_mul]
      exact he ▸ (lt_two_pow_spacingExponent hden).le
    unfold ordinalCount
    omega
  · have hround : roundEven num (den * 2 ^ 2045) ≤ 2 ^ 53 - 1 :=
      roundEven_le_of_lt hpos hdouble
    unfold ordinalCount
    omega

/-- **Which quotients stay finite**: those below the threshold. -/
theorem isFinite_ofQuotient_iff (negative : Bool) (hden : 0 < den) :
    (Binary64.ofQuotient negative num den).isFinite = true ↔
      num < overflowThreshold * quantaPerUnit * den := by
  have hordinal : (Binary64.ofQuotient negative num den).isFinite = true ↔
      nearestOrdinal num den < ordinalCount := by
    unfold Binary64.ofQuotient
    split <;> simp_all [Binary64.isFinite]
  rw [hordinal]
  refine ⟨fun hlt => ?_, nearestOrdinal_lt_of_lt hden⟩
  by_contra hge
  have hle : nearestOrdinal (overflowThreshold * quantaPerUnit) 1 ≤ nearestOrdinal num den := by
    refine nearestOrdinal_le_nearestOrdinal Nat.one_pos hden ?_
    rw [Nat.mul_one]
    exact Nat.le_of_not_lt hge
  rw [nearestOrdinal_overflowThreshold] at hle
  exact Nat.lt_irrefl _ (Nat.lt_of_lt_of_le hlt hle)

/-- **The greatest magnitude.** -/
theorem magnitude_le_greatest (x : Binary64) : x.magnitude ≤ greatestFinite * quantaPerUnit := by
  have hgreatest : magnitudeOf (ordinalCount - 1) = greatestFinite * quantaPerUnit := by
    decide +kernel
  rw [← hgreatest]
  cases x with
  | nan => exact Nat.zero_le _
  | infinite negative => exact Nat.zero_le _
  | finite negative ordinal => exact magnitudeOf_le_magnitudeOf (Nat.le_sub_one_of_lt ordinal.isLt)

theorem magnitude_lt_overflowThreshold (x : Binary64) :
    x.magnitude < overflowThreshold * quantaPerUnit :=
  (magnitude_le_greatest x).trans_lt
    (Nat.mul_lt_mul_of_pos_right greatestFinite_bounds.2.1 quantaPerUnit_pos)

end Keypad
