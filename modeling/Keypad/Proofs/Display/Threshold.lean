import Keypad.Proofs.Binary64.Order
import Keypad.Proofs.Display.Ceiling
import Keypad.Proofs.Display.Places

/-!
# One threshold for the digit ceiling

Just below `10 ^ 12` the computed logarithm decides whether a value is within the ceiling.  Every
step of its computation keeps order in the binade there, so there is one threshold: a value no
larger than one within the ceiling is within it.

## Main results

* `roundUp_le_roundUp`, `oddSeries_le_oddSeries`: the steps of the series
* `Binary64.inOrder_naturalLog`, `Binary64.inOrder_decimalLog`: logarithms of growing numbers
* `Binary64.digitCeiling_le_floorLog_iff`: where the computed digit count reaches the ceiling
* `Binary64.exceedsCeiling_of_magnitude_le`: the ceiling is a threshold
* `Binary64.exceedsCeiling_of_le_units`: numbers of up to twelve digits are within the ceiling
-/

namespace Keypad

/-! ## The series -/

theorem roundUp_le_roundUp {num den num' den' : Nat} (hden' : 0 < den')
    (h : num * den' ≤ num' * den) : roundUp num den ≤ roundUp num' den' := by
  refine roundUp_le_of_le_mul (Nat.le_of_mul_le_mul_right ?_ hden')
  calc num * den' ≤ num' * den := h
    _ ≤ roundUp num' den' * den' * den := Nat.mul_le_mul_right _ (le_roundUp_mul num' hden')
    _ = roundUp num' den' * den * den' := Nat.mul_right_comm _ _ _

theorem roundUp_sq_le_roundUp_sq {num den num' den' : Nat} (hden' : 0 < den')
    (h : num * den' ≤ num' * den) (unit : Nat) :
    roundUp (num ^ 2 * unit) (den ^ 2) ≤ roundUp (num' ^ 2 * unit) (den' ^ 2) := by
  refine roundUp_le_roundUp (Nat.pow_pos hden') ?_
  calc num ^ 2 * unit * den' ^ 2 = (num * den') ^ 2 * unit := by ring
    _ ≤ (num' * den) ^ 2 * unit := Nat.mul_le_mul_right _ (Nat.pow_le_pow_left h 2)
    _ = num' ^ 2 * unit * den ^ 2 := by ring

theorem oddSeries_le_oddSeries {square square' : Nat} (h : square ≤ square') (terms n : Nat) :
    oddSeries square terms n ≤ oddSeries square' terms n := by
  induction terms generalizing n with
  | zero => exact Nat.le_refl _
  | succ terms ih =>
    rw [oddSeries, oddSeries]
    refine Nat.add_le_add_left (roundUp_le_roundUp (Nat.two_pow_pos 62) ?_) _
    exact Nat.mul_le_mul_right _ (Nat.mul_le_mul h (ih (n + 2)))

namespace Binary64

variable {m n : Nat} {x y : Binary64}

/-- From one on, a larger quotient has a larger natural logarithm. -/
theorem inOrder_naturalLog {den : Nat} (hden : 0 < den) (hm : den ≤ m) (h : m ≤ n) :
    InOrder (naturalLog m den) (naturalLog n den) := by
  obtain ⟨a, rfl⟩ := Nat.exists_eq_add_of_le hm
  obtain ⟨b, rfl⟩ := Nat.exists_eq_add_of_le (hm.trans h)
  have hab : a ≤ b := by omega
  have hbelow : ∀ k, ¬ den + k < den := fun k => by omega
  have hdifference : ∀ k, den + k - den = k := fun k =>
    Nat.add_sub_cancel_left den k
  unfold naturalLog
  simp only [hbelow, if_false, hdifference, decide_false]
  -- the ratio `t` of difference and sum grows, and with it the square and the series
  have hratio : a * (den + b + den) ≤ b * (den + a + den) := by
    calc a * (den + b + den) = a * (2 * den) + a * b := by ring
      _ ≤ b * (2 * den) + a * b := Nat.add_le_add_right (Nat.mul_le_mul_right _ hab) _
      _ = b * (den + a + den) := by ring
  have hseries := oddSeries_le_oddSeries
    (roundUp_sq_le_roundUp_sq (by omega) hratio seriesUnit) seriesTerms 1
  generalize oddSeries _ _ _ = s at hseries ⊢
  generalize oddSeries _ _ _ = s' at hseries ⊢
  have hunit : 0 < seriesUnit := Nat.two_pow_pos 62
  refine inOrder_ofQuotient (Nat.mul_pos (by omega) hunit) (Nat.mul_pos (by omega) hunit) ?_
  calc 2 * a * s * quantaPerUnit * ((den + b + den) * seriesUnit)
      = 2 * (a * (den + b + den)) * s * quantaPerUnit * seriesUnit := by ring
    _ ≤ 2 * (b * (den + a + den)) * s' * quantaPerUnit * seriesUnit := by gcongr
    _ = 2 * b * s' * quantaPerUnit * ((den + a + den) * seriesUnit) := by ring

theorem exists_eq_finite (hfinite : x.isFinite = true) (hsign : x.isNegative = false) :
    ∃ ordinal, x = finite false ordinal := by
  cases x with
  | nan => cases hfinite
  | infinite negative => cases hfinite
  | finite negative ordinal =>
    obtain rfl : negative = false := hsign
    exact ⟨ordinal, rfl⟩

/-- The binade in which the ceiling stands. -/
def ceilingExponent : Nat := 39

/-- In the binade of the ceiling the decimal logarithm keeps order: only the natural logarithm of
the mantissa differs, and what is added and multiplied has no sign. -/
theorem inOrder_decimalLog (h : m ≤ n) (hm : m.log2 = ceilingExponent + quantumPlaces)
    (hn : n.log2 = ceilingExponent + quantumPlaces) :
    InOrder (decimalLog m) (decimalLog n) := by
  obtain ⟨low, hlow⟩ := exists_eq_finite (x := (ofInt ceilingExponent).mul logTwoLow)
    (by decide +kernel) (by decide +kernel)
  obtain ⟨high, hhigh⟩ := exists_eq_finite (x := (ofInt ceilingExponent).mul logTwoHigh)
    (by decide +kernel) (by decide +kernel)
  obtain ⟨euler, heuler⟩ := exists_eq_finite (x := logEuler) (by decide +kernel) (by decide +kernel)
  have hpositive : euler.val ≠ 0 := by
    intro hzero
    have hne : logEuler.isZero = false := by decide +kernel
    rw [heuler, isZero, hzero] at hne
    cases hne
  have hmantissa : 2 ^ (ceilingExponent + quantumPlaces) ≤ m := by
    rw [← hm]
    refine Nat.log2_self_le ?_
    rintro rfl
    exact absurd hm (by decide)
  -- both numbers have the exponent of this binade, and it is not negative
  have hpower : ((ceilingExponent + quantumPlaces : Nat) : Int) - quantumPlaces =
      ceilingExponent := by omega
  have hexponent : ¬ (ceilingExponent : Int) < 0 := by decide
  unfold decimalLog
  simp only [hm, hn, hpower, hexponent, if_false]
  rw [hlow, hhigh, heuler]
  have hlogs := inOrder_naturalLog (Nat.two_pow_pos _) hmantissa h
  exact ((hlogs.mul hpositive).add_left low).add_right high

/-! ## The ceiling -/

/-- Just below the ceiling a number of quanta is in its binade. -/
theorem log2_of_isJustBelow (hjust : isJustBelow digitCeiling n quantaPerUnit = true)
    (hbelow : n < 10 ^ digitCeiling * quantaPerUnit) :
    n.log2 = ceilingExponent + quantumPlaces := by
  have hjust : 10 ^ digitCeiling * quantaPerUnit * (2 ^ 40 - 1) ≤ n * 2 ^ 40 := by
    simpa [isJustBelow] using hjust
  have hhalf : 2 ^ ceilingExponent * 2 ^ 40 ≤ 10 ^ digitCeiling * (2 ^ 40 - 1) := by decide
  have hlow : 2 ^ (ceilingExponent + quantumPlaces) ≤ n := by
    have hscaled : 2 ^ ceilingExponent * quantaPerUnit * 2 ^ 40 ≤ n * 2 ^ 40 := by
      calc 2 ^ ceilingExponent * quantaPerUnit * 2 ^ 40
          = 2 ^ ceilingExponent * 2 ^ 40 * quantaPerUnit := Nat.mul_right_comm _ _ _
        _ ≤ 10 ^ digitCeiling * (2 ^ 40 - 1) * quantaPerUnit := Nat.mul_le_mul_right _ hhalf
        _ = 10 ^ digitCeiling * quantaPerUnit * (2 ^ 40 - 1) := Nat.mul_right_comm _ _ _
        _ ≤ n * 2 ^ 40 := hjust
    rw [two_pow_add_quantumPlaces]
    exact Nat.le_of_mul_le_mul_right hscaled (Nat.two_pow_pos 40)
  have hceiling : 10 ^ digitCeiling < 2 ^ (ceilingExponent + 1) := by decide
  have hhigh : n < 2 ^ (ceilingExponent + 1 + quantumPlaces) := by
    rw [two_pow_add_quantumPlaces]
    exact Nat.lt_trans hbelow (Nat.mul_lt_mul_of_pos_right hceiling quantaPerUnit_pos)
  have hne : n ≠ 0 := by
    rintro rfl
    exact Nat.not_le.mpr (Nat.two_pow_pos _) hlow
  have := (Nat.le_log2 hne).mpr hlow
  have := (Nat.log2_lt hne).mpr hhigh
  omega

theorem isJustBelow_of_le (h : m ≤ n) (hm : isJustBelow digitCeiling m quantaPerUnit = true) :
    isJustBelow digitCeiling n quantaPerUnit = true := by
  simp only [isJustBelow, Int.natCast_nonneg, if_true, Int.toNat_natCast,
    decide_eq_true_eq] at hm ⊢
  exact hm.trans (Nat.mul_le_mul_right _ h)

/-- Between a number in the last decade below the ceiling and the ceiling all are in that decade. -/
theorem decade_add_one_of_le (h : m ≤ n) (hn : n < 10 ^ digitCeiling * quantaPerUnit)
    (hm : decade m quantaPerUnit + 1 = digitCeiling) :
    decade n quantaPerUnit + 1 = digitCeiling := by
  have hdecade := (decade_le_iff (k := digitCeiling) (by decide)).mpr hn
  have hlow : ¬ m < 10 ^ (digitCeiling - 1) * quantaPerUnit := by
    intro hlt
    have hfewer := (decade_le_iff (k := digitCeiling - 1) (by decide)).mpr hlt
    unfold digitCeiling at hm hfewer
    omega
  have hlow' : ¬ n < 10 ^ (digitCeiling - 1) * quantaPerUnit := fun hlt => hlow (h.trans_lt hlt)
  have hmore := mt (decade_le_iff (k := digitCeiling - 1) (by decide)).mp hlow'
  unfold digitCeiling at hdecade hmore ⊢
  omega

/-- Below the power of ten, the digit count reaches the ceiling where it is one too many: in the
last decade, just below the power, and with a logarithm computed as large as the ceiling. -/
theorem digitCeiling_le_floorLog_iff (hn : n < 10 ^ digitCeiling * quantaPerUnit) :
    (digitCeiling : Int) ≤ floorLog n ↔
      decade n quantaPerUnit + 1 = digitCeiling ∧
        isJustBelow digitCeiling n quantaPerUnit = true ∧
        (decimalLog n).lt (ofInt digitCeiling) = false := by
  have hdecade := (decade_le_iff (k := digitCeiling) (by decide)).mpr hn
  have hbounds := floorLog_bounds n
  constructor
  · intro hreached
    have hlast : decade n quantaPerUnit + 1 = digitCeiling := by omega
    refine ⟨hlast, ?_⟩
    by_contra hnot
    have hfloor : floorLog n = decade n quantaPerUnit := by
      unfold floorLog
      simp only [hlast]
      refine if_neg fun hboth => hnot ?_
      simpa using hboth
    omega
  · rintro ⟨hlast, hjust, hlog⟩
    have hfloor : floorLog n = digitCeiling := by
      unfold floorLog
      simp only [hlast, hjust, hlog]
      rfl
    omega

/-- **The computed digit count reaches the ceiling once and for all.** -/
theorem digitCeiling_le_floorLog (h : m ≤ n) (hm : (digitCeiling : Int) ≤ floorLog m) :
    (digitCeiling : Int) ≤ floorLog n := by
  by_cases hn : n < 10 ^ digitCeiling * quantaPerUnit
  · have hbelow : m < 10 ^ digitCeiling * quantaPerUnit := h.trans_lt hn
    obtain ⟨hlast, hjust, hlog⟩ := (digitCeiling_le_floorLog_iff hbelow).mp hm
    have hjust' := isJustBelow_of_le h hjust
    -- both numbers are in the binade of the ceiling, where logarithms keep order
    have horder := inOrder_decimalLog h (log2_of_isJustBelow hjust hbelow)
      (log2_of_isJustBelow hjust' hn)
    refine (digitCeiling_le_floorLog_iff hn).mpr
      ⟨decade_add_one_of_le h hn hlast, hjust', Bool.eq_false_iff.mpr fun hlt => ?_⟩
    rw [horder.lt_of_lt hlt] at hlog
    cases hlog
  · have hdecade := mt (decade_le_iff (k := digitCeiling) (by decide)).mp hn
    have hbounds := floorLog_bounds n
    omega

theorem isFinite_of_exceedsCeiling (h : x.exceedsCeiling = false) : x.isFinite = true := by
  simp only [exceedsCeiling, Bool.or_eq_false_iff, Bool.not_eq_false'] at h
  exact h.1

/-- Whether a finite value is within the ceiling depends on its magnitude. -/
theorem exceedsCeiling_eq_false_iff (hx : x.isFinite = true) :
    x.exceedsCeiling = false ↔
      x.magnitude ≠ 0 → ¬ (digitCeiling : Int) ≤ floorLog x.magnitude := by
  cases x with
  | nan => cases hx
  | infinite negative => cases hx
  | finite negative ordinal =>
    have hzero : magnitudeOf 0 = 0 := rfl
    by_cases h : ordinal.val = 0
    · simp [exceedsCeiling, isFinite, isZero, magnitude, h, hzero]
    · have hne : magnitudeOf ordinal ≠ 0 := fun hnull =>
        h (magnitudeOf_injective (hnull.trans hzero.symm))
      have hvalue : (finite negative ordinal).exceedsCeiling =
          decide ((digitCeiling : Int) < floorLog (magnitudeOf ordinal) + 1) := by
        simp [exceedsCeiling, isFinite, isZero, digitsBeforePoint, h]
      rw [hvalue, decide_eq_false_iff_not, Int.lt_add_one_iff]
      exact ⟨fun hlog _ => hlog, fun hlog => hlog hne⟩

/-- **The ceiling is a threshold**: what is no larger than a value within it is within it. -/
theorem exceedsCeiling_of_magnitude_le (hx : x.isFinite = true) (h : x.magnitude ≤ y.magnitude)
    (hy : y.exceedsCeiling = false) : x.exceedsCeiling = false := by
  rw [exceedsCeiling_eq_false_iff (isFinite_of_exceedsCeiling hy)] at hy
  refine (exceedsCeiling_eq_false_iff hx).mpr fun hne hlog => ?_
  exact hy (by omega) (digitCeiling_le_floorLog h hlog)

/-- The largest whole number of twelve digits is within the ceiling, and so is all below it. -/
theorem exceedsCeiling_of_le_units (hx : x.isFinite = true)
    (h : x.magnitude ≤ (10 ^ digitCeiling - 1) * quantaPerUnit) : x.exceedsCeiling = false := by
  have hlargest : (ofNat (10 ^ digitCeiling - 1)).exceedsCeiling = false := by decide +kernel
  obtain ⟨ordinal, hvalue, hmagnitude⟩ :=
    exists_ofQuotient_whole (k := 10 ^ digitCeiling - 1) (by decide) false
  refine exceedsCeiling_of_magnitude_le hx ?_ hlargest
  rw [ofNat, hvalue]
  exact h.trans hmagnitude.ge

end Binary64

end Keypad
