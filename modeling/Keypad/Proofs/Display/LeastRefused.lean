import Keypad.Display.Style
import Keypad.Proofs.Binary64.NearestReal
import Keypad.Proofs.Display.Threshold
import Mathlib.Analysis.Complex.ExponentialBounds
import Mathlib.Analysis.SpecialFunctions.Log.Base

/-!
# The least value refused

The digits before the point are counted by a logarithm that is itself a value.  Between `10 ^ 12`
and the values just below it the logarithm differs by less than the spacing of values at twelve, so
it is rounded up to twelve there, and these values are refused although they have twelve digits.
With a logarithm rounded to the nearest value there are sixteen of them; as the logarithm is
computed there is one more.

## Main definitions

* `belowCeiling`: the magnitudes just below `10 ^ 12`
* `Binary64.IsDecimalLog`, `Binary64.ExceedsCeilingBy`: a correctly rounded logarithm, and the test
  of the ceiling by any logarithm

## Main results

* `Binary64.lt_logb`, `Binary64.logb_lt`: on which side of the middle the exact logarithm is
* `Binary64.exceedsCeiling_iff`: which values are refused
-/

namespace Keypad

/-! ## Magnitudes just below the ceiling -/

/-- The ordinal of the magnitude `10 ^ 12`. -/
def ceilingOrdinal : Nat := 0x426D1A94A2000000

/-- The magnitude so many spacings below `10 ^ 12`; one spacing is `2 ^ -13` there. -/
def belowCeiling (spacings : Nat) : Nat :=
  10 ^ digitCeiling * quantaPerUnit - spacings * 2 ^ (quantumPlaces - 13)

theorem magnitudeOf_ceilingOrdinal_sub {spacings : Nat} (h : spacings ≤ 18) :
    magnitudeOf (ceilingOrdinal - spacings) = belowCeiling spacings := by
  have hall : ∀ k ≤ 18, magnitudeOf (ceilingOrdinal - k) = belowCeiling k := by decide +kernel
  exact hall spacings h

theorem belowCeiling_pos {spacings : Nat} (h : spacings ≤ 18) : 0 < belowCeiling spacings := by
  have hpositive : 18 < ceilingOrdinal := by decide
  rw [← magnitudeOf_ceilingOrdinal_sub h]
  exact Nat.zero_lt_of_lt (magnitudeOf_lt_magnitudeOf (by omega : 0 < ceilingOrdinal - spacings))

/-- What is less than one of these magnitudes is no more than the next. -/
theorem le_belowCeiling_succ {spacings n : Nat} (h : spacings ≤ 17)
    (hlt : magnitudeOf n < belowCeiling spacings) :
    magnitudeOf n ≤ belowCeiling (spacings + 1) := by
  have hpositive : 18 < ceilingOrdinal := by decide
  rw [← magnitudeOf_ceilingOrdinal_sub (by omega), magnitudeOf_lt_iff] at hlt
  rw [← magnitudeOf_ceilingOrdinal_sub (by omega)]
  exact magnitudeOf_le_magnitudeOf (by omega)

namespace Binary64

/-- **As the logarithm is computed**, seventeen magnitudes below `10 ^ 12` reach the ceiling. -/
theorem digitCeiling_le_floorLog_iff_belowCeiling (n : Nat) :
    (digitCeiling : Int) ≤ floorLog (magnitudeOf n) ↔ belowCeiling 17 ≤ magnitudeOf n := by
  have hreached : (digitCeiling : Int) ≤ floorLog (belowCeiling 17) := by decide +kernel
  have hnot : ¬ (digitCeiling : Int) ≤ floorLog (belowCeiling 18) := by decide +kernel
  constructor
  · intro hlog
    by_contra hlt
    have hnext := le_belowCeiling_succ (by decide) (Nat.lt_of_not_le hlt)
    exact hnot (digitCeiling_le_floorLog hnext hlog)
  · exact fun hle => digitCeiling_le_floorLog hle hreached

/-! ## The exact logarithm -/

theorem log_ten_bounds : 2.287 < Real.log 10 ∧ Real.log 10 < 2.311 := by
  have hlow : Real.log ((2 : ℝ) ^ 33) < Real.log ((10 : ℝ) ^ 10) :=
    Real.log_lt_log (by norm_num) (by norm_num)
  have hhigh : Real.log ((10 : ℝ) ^ 3) < Real.log ((2 : ℝ) ^ 10) :=
    Real.log_lt_log (by norm_num) (by norm_num)
  rw [Real.log_pow, Real.log_pow] at hlow hhigh
  have := Real.log_two_gt_d9
  have := Real.log_two_lt_d9
  norm_num at hlow hhigh
  constructor <;> linarith

/-- A logarithm near twelve by the ratio to `10 ^ 12`. -/
theorem logb_eq {v : ℝ} (hv : 0 < v) :
    Real.logb 10 v = 12 + Real.log (v / 10 ^ 12) / Real.log 10 := by
  have hten : Real.log 10 ≠ 0 := by
    have := log_ten_bounds.1
    linarith
  rw [Real.log_div hv.ne' (by norm_num), Real.log_pow, Real.logb]
  field_simp
  push_cast
  ring

/-- From sixteen spacings below `10 ^ 12` on, the logarithm is beyond the middle between twelve and
the value below it. -/
theorem lt_logb {v : ℝ} (hv : 10 ^ 12 - 16 / 2 ^ 13 ≤ v) : 12 - 1 / 2 ^ 50 < Real.logb 10 v := by
  have hpos : 0 < v := lt_of_lt_of_le (by norm_num) hv
  have hratio : 1 - 16 / 2 ^ 13 / 10 ^ 12 ≤ v / 10 ^ 12 := by
    rw [le_div_iff₀ (by norm_num)]
    linarith
  have hlog := Real.one_sub_inv_le_log_of_pos (div_pos hpos (by norm_num : (0 : ℝ) < 10 ^ 12))
  have hinv : (v / 10 ^ 12)⁻¹ ≤ (1 - 16 / 2 ^ 13 / 10 ^ 12)⁻¹ :=
    inv_anti₀ (by norm_num) hratio
  have hten := log_ten_bounds.1
  rw [logb_eq hpos, ← sub_lt_iff_lt_add', sub_sub_cancel_left, lt_div_iff₀ (by linarith)]
  norm_num at hlog hinv ⊢
  linarith

/-- At seventeen spacings below `10 ^ 12` it is short of that middle. -/
theorem logb_lt {v : ℝ} (hpos : 0 < v) (hv : v ≤ 10 ^ 12 - 17 / 2 ^ 13) :
    Real.logb 10 v < 12 - 1 / 2 ^ 50 := by
  have hratio : v / 10 ^ 12 ≤ 1 - 17 / 2 ^ 13 / 10 ^ 12 := by
    rw [div_le_iff₀ (by norm_num)]
    linarith
  have hlog := Real.log_le_sub_one_of_pos (div_pos hpos (by norm_num : (0 : ℝ) < 10 ^ 12))
  have hten := log_ten_bounds
  rw [logb_eq hpos, ← lt_sub_iff_add_lt', sub_sub_cancel_left, div_lt_iff₀ (by linarith)]
  norm_num at hratio ⊢
  linarith

/-! ## The ceiling -/

theorem belowCeiling_mul {spacings : Nat} (h : spacings ≤ 18) :
    belowCeiling spacings * 2 ^ 13 + spacings * quantaPerUnit =
      10 ^ 12 * 2 ^ 13 * quantaPerUnit := by
  have hplaces : quantumPlaces - 13 + 13 = quantumPlaces := by decide
  have hunit : 2 ^ (quantumPlaces - 13) * 2 ^ 13 = quantaPerUnit := by
    rw [← Nat.pow_add, hplaces]
    rfl
  have hle : spacings * 2 ^ (quantumPlaces - 13) ≤ 10 ^ 12 * quantaPerUnit := by
    calc spacings * 2 ^ (quantumPlaces - 13) ≤ 10 ^ 12 * 2 ^ (quantumPlaces - 13) :=
          Nat.mul_le_mul_right _ (h.trans (by decide))
      _ ≤ 10 ^ 12 * quantaPerUnit := by
          rw [← hunit]
          exact Nat.mul_le_mul_left _ (Nat.le_mul_of_pos_right _ (by decide))
  have hceiling : 10 ^ digitCeiling = 10 ^ 12 := rfl
  rw [belowCeiling, hceiling]
  conv_lhs => rw [← hunit, ← Nat.mul_assoc spacings, ← Nat.add_mul, hunit]
  rw [Nat.sub_add_cancel hle, Nat.mul_right_comm]

/-- The magnitude so many spacings below `10 ^ 12`, as a real number. -/
theorem belowCeiling_div {spacings : Nat} (h : spacings ≤ 18) :
    (belowCeiling spacings : ℝ) / quantaPerUnit = 10 ^ 12 - spacings / 2 ^ 13 := by
  have hmagnitude := belowCeiling_mul h
  have hquanta := quantaPerUnit_pos_real
  generalize belowCeiling spacings = magnitude at hmagnitude ⊢
  generalize quantaPerUnit = unit at hmagnitude hquanta ⊢
  have hreal : (magnitude : ℝ) * 2 ^ 13 + spacings * unit = 10 ^ 12 * 2 ^ 13 * unit := by
    exact_mod_cast hmagnitude
  rw [div_eq_iff hquanta.ne']
  linarith

/-- A correctly rounded decimal logarithm: the value nearest to the exact one. -/
def IsDecimalLog (log : Binary64 → Binary64) : Prop :=
  ∀ x : Binary64, x.isFinite = true → 0 < x.toReal → IsNearest (Real.logb 10 x.toReal) (log x)

/-- The test of the ceiling with any logarithm: whether a value is not finite, or has more than
twelve digits by the floor of its logarithm. -/
def ExceedsCeilingBy (log : Binary64 → Binary64) (x : Binary64) : Prop :=
  x.isFinite = false ∨ x.isZero = false ∧ (digitCeiling : ℤ) < ⌊(log x.abs).toReal⌋ + 1

/-- The ordinal of the number twelve. -/
def twelveOrdinal : Fin ordinalCount := ⟨0x4028000000000000, by decide⟩

/-- The ordinal of the value below twelve. -/
def belowTwelveOrdinal : Fin ordinalCount := ⟨0x4027FFFFFFFFFFFF, by decide⟩

theorem magnitudeOf_twelveOrdinal : magnitudeOf twelveOrdinal = 12 * quantaPerUnit ∧
    magnitudeOf belowTwelveOrdinal * 2 ^ 49 + quantaPerUnit = 12 * 2 ^ 49 * quantaPerUnit := by
  decide +kernel

theorem toReal_twelve : (finite false twelveOrdinal).toReal = 12 := by
  rw [toReal_unsigned, magnitudeOf_twelveOrdinal.1, div_eq_iff quantaPerUnit_pos_real.ne']
  push_cast
  rfl

theorem toReal_belowTwelve : (finite false belowTwelveOrdinal).toReal = 12 - 2 / 2 ^ 50 := by
  have hmagnitude := magnitudeOf_twelveOrdinal.2
  have hquanta := quantaPerUnit_pos_real
  rw [toReal_unsigned, div_eq_iff hquanta.ne']
  generalize magnitudeOf belowTwelveOrdinal = magnitude at hmagnitude ⊢
  generalize quantaPerUnit = unit at hmagnitude hquanta ⊢
  have hreal : (magnitude : ℝ) * 2 ^ 49 + unit = 12 * 2 ^ 49 * unit := by
    exact_mod_cast hmagnitude
  linarith

/-- **With a correctly rounded logarithm**, sixteen magnitudes below `10 ^ 12` have thirteen digits
by it. -/
theorem digitCeiling_lt_floor_iff {log : Binary64 → Binary64} (hlog : IsDecimalLog log)
    {ordinal : Fin ordinalCount} (hpos : 0 < magnitudeOf ordinal) :
    (digitCeiling : ℤ) < ⌊(log (finite false ordinal)).toReal⌋ + 1 ↔
      belowCeiling 16 ≤ magnitudeOf ordinal := by
  have hquanta := quantaPerUnit_pos_real
  have hreal : (0 : ℝ) < magnitudeOf ordinal / quantaPerUnit :=
    div_pos (Nat.cast_pos.mpr hpos) hquanta
  have hnearest := hlog (finite false ordinal) rfl hreal
  rw [toReal_unsigned] at hnearest
  have hnext : twelveOrdinal.val = belowTwelveOrdinal.val + 1 := rfl
  have hmiddle : (finite false belowTwelveOrdinal).toReal + (finite false twelveOrdinal).toReal =
      2 * (12 - 1 / 2 ^ 50) := by
    rw [toReal_belowTwelve, toReal_twelve]
    ring
  rw [Int.lt_add_one_iff, Int.le_floor]
  constructor
  · intro htwelve
    by_contra hlt
    have hle := le_belowCeiling_succ (by decide) (Nat.lt_of_not_le hlt)
    have hvalue : (magnitudeOf ordinal : ℝ) / quantaPerUnit ≤ 10 ^ 12 - 17 / 2 ^ 13 := by
      have hratio := div_le_div_of_nonneg_right (Nat.cast_le (α := ℝ).mpr hle) hquanta.le
      rw [belowCeiling_div (by decide)] at hratio
      exact_mod_cast hratio
    have hbelow := hnearest.lt_of_lt_midpoint (m := belowTwelveOrdinal) (n := twelveOrdinal)
      (by decide) (by rw [hmiddle]; linarith [logb_lt hreal hvalue])
    rw [toReal_twelve] at hbelow
    exact absurd htwelve (not_le.mpr (by exact_mod_cast hbelow))
  · intro hle
    have hvalue : 10 ^ 12 - 16 / 2 ^ 13 ≤ (magnitudeOf ordinal : ℝ) / quantaPerUnit := by
      have hratio := div_le_div_of_nonneg_right (Nat.cast_le (α := ℝ).mpr hle) hquanta.le
      rw [belowCeiling_div (by decide)] at hratio
      exact_mod_cast hratio
    have habove := hnearest.le_of_midpoint_lt hnext (by rw [hmiddle]; linarith [lt_logb hvalue])
    rw [toReal_twelve] at habove
    exact_mod_cast habove

theorem exceedsCeiling_finite_iff (negative : Bool) (ordinal : Fin ordinalCount) :
    (finite negative ordinal).exceedsCeiling = true ↔ belowCeiling 17 ≤ magnitudeOf ordinal := by
  have hpos : 0 < belowCeiling 17 := belowCeiling_pos (by decide)
  rw [← not_iff_not, Bool.not_eq_true, exceedsCeiling_eq_false_iff rfl]
  show (magnitudeOf ordinal ≠ 0 → ¬ (digitCeiling : Int) ≤ floorLog (magnitudeOf ordinal)) ↔ _
  rw [digitCeiling_le_floorLog_iff_belowCeiling]
  exact ⟨fun h hle => h (by omega) hle, fun h _ => h⟩

theorem exceedsCeilingBy_finite_iff {log : Binary64 → Binary64} (hlog : IsDecimalLog log)
    (negative : Bool) (ordinal : Fin ordinalCount) :
    (finite negative ordinal).ExceedsCeilingBy log ↔ belowCeiling 16 ≤ magnitudeOf ordinal := by
  have hpos : 0 < belowCeiling 16 := belowCeiling_pos (by decide)
  have hzero : magnitudeOf 0 = 0 := rfl
  show _ ∨ (ordinal.val == 0) = false ∧ _ ↔ _
  rw [or_iff_right (by simp [isFinite]), beq_eq_false_iff_ne]
  constructor
  · rintro ⟨hne, hdigits⟩
    have hmagnitude := magnitudeOf_lt_magnitudeOf (Nat.pos_of_ne_zero hne)
    exact (digitCeiling_lt_floor_iff hlog (Nat.zero_lt_of_lt hmagnitude)).mp hdigits
  · intro hle
    refine ⟨fun heq => ?_, (digitCeiling_lt_floor_iff hlog (by omega)).mpr hle⟩
    rw [heq] at hle
    omega

/-- **Which values are refused**: those that are not finite, and those from just below `10 ^ 12` on,
the seventeen values below it among them.  With any correctly rounded logarithm it would be sixteen
of them. -/
theorem exceedsCeiling_iff {log : Binary64 → Binary64} (hlog : IsDecimalLog log) (x : Binary64) :
    (x.exceedsCeiling = true ↔ x.isFinite = false ∨ belowCeiling 17 ≤ x.magnitude) ∧
      (x.ExceedsCeilingBy log ↔ x.isFinite = false ∨ belowCeiling 16 ≤ x.magnitude) := by
  cases x with
  | nan => simp [exceedsCeiling, ExceedsCeilingBy, isFinite]
  | infinite negative => simp [exceedsCeiling, ExceedsCeilingBy, isFinite]
  | finite negative ordinal =>
    rw [or_iff_right (by simp [isFinite]), or_iff_right (by simp [isFinite])]
    exact ⟨exceedsCeiling_finite_iff negative ordinal,
      exceedsCeilingBy_finite_iff hlog negative ordinal⟩

/-- The decimal logarithm, rounded to the nearest value. -/
noncomputable def roundedLog (x : Binary64) : Binary64 := nearest (Real.logb 10 x.toReal)

theorem isDecimalLog_roundedLog : IsDecimalLog roundedLog := fun _ _ _ => isNearest_nearest _

/-- The seventeenth value below `10 ^ 12` is refused, and would not be with its logarithm rounded to
the nearest value; the eighteenth is not refused. -/
theorem exceedsCeiling_iff_seventeenth :
    let seventeenth := ofBits 0x426D1A94A1FFFFEF
    let eighteenth := ofBits 0x426D1A94A1FFFFEE
    IsDecimalLog roundedLog ∧ seventeenth.exceedsCeiling = true ∧
      ¬ seventeenth.ExceedsCeilingBy roundedLog ∧ ¬ eighteenth.exceedsCeiling = true := by
  intro seventeenth eighteenth
  have hseventeenth := exceedsCeiling_iff isDecimalLog_roundedLog seventeenth
  have height := exceedsCeiling_iff isDecimalLog_roundedLog eighteenth
  refine ⟨isDecimalLog_roundedLog, hseventeenth.1.mpr ?_, mt hseventeenth.2.mp ?_,
    mt height.1.mp ?_⟩
  · decide +kernel
  · decide +kernel
  · decide +kernel

/-- **The slip**: `999999999999.999` has twelve digits before the point and is less than `10 ^ 12`,
but it is refused, and would be with any correctly rounded logarithm. -/
theorem exceedsCeiling_of_twelve_digits :
    let x := ofBits 0x426D1A94A1FFFFF8
    (Style.plain 3).write x = "999999999999.999".toList ∧ x.isFinite = true ∧
      x.magnitude < 10 ^ 12 * quantaPerUnit ∧ x.exceedsCeiling = true ∧
      x.accept 3 = .error .overflow ∧
      ∀ log, IsDecimalLog log → x.ExceedsCeilingBy log := by
  intro x
  have hx : x = finite false ⟨0x426D1A94A1FFFFF8, by decide⟩ := by decide +kernel
  refine ⟨by decide +kernel, by decide +kernel, by decide +kernel, by decide +kernel,
    by decide +kernel, fun log hlog => ?_⟩
  rw [hx, exceedsCeilingBy_finite_iff hlog]
  decide +kernel

end Binary64

end Keypad
