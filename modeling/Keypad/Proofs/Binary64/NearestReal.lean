import Keypad.Proofs.Display.Places
import Mathlib.Data.Finite.Prod
import Mathlib.Data.Fintype.Lattice
import Mathlib.Data.Real.Basic
import Mathlib.Tactic.Linarith

/-!
# The value nearest to a real number

Finite values are real numbers, in the order of their magnitudes.  A real number has a nearest value
among them, since they are finitely many; and where it lies beyond the middle between two
neighbours, its nearest value does too.

## Main definitions

* `Binary64.toReal`: a finite value as a real number
* `Binary64.IsNearest`, `Binary64.nearest`: a value nearest to a real number

## Main results

* `Binary64.exists_isNearest`: there is one for every real number
* `Binary64.IsNearest.le_of_midpoint_lt`, `lt_of_lt_midpoint`: either side of the middle between two
  neighbours
-/

namespace Keypad

namespace Binary64

/-- A finite value as a real number; zero for the others. -/
noncomputable def toReal (x : Binary64) : ℝ := x.quanta / quantaPerUnit

/-- A finite value that is as near to a real number as any other. -/
structure IsNearest (r : ℝ) (y : Binary64) : Prop where
  isFinite : y.isFinite = true
  le : ∀ z : Binary64, z.isFinite = true → |y.toReal - r| ≤ |z.toReal - r|

/-- There are finitely many finite values, so one of them is nearest. -/
theorem exists_isNearest (r : ℝ) : ∃ y, IsNearest r y := by
  have : Nonempty (Bool × Fin ordinalCount) := ⟨false, ⟨0, by decide⟩⟩
  obtain ⟨best, hbest⟩ := Finite.exists_min fun p : Bool × Fin ordinalCount =>
    |(finite p.1 p.2).toReal - r|
  refine ⟨finite best.1 best.2, rfl, fun z hz => ?_⟩
  cases z with
  | nan => cases hz
  | infinite negative => cases hz
  | finite negative ordinal => exact hbest (negative, ordinal)

/-- A value nearest to a real number. -/
noncomputable def nearest (r : ℝ) : Binary64 := (exists_isNearest r).choose

theorem isNearest_nearest (r : ℝ) : IsNearest r (nearest r) := (exists_isNearest r).choose_spec

/-! ## Neighbours -/

theorem quantaPerUnit_pos_real : (0 : ℝ) < quantaPerUnit := Nat.cast_pos.mpr quantaPerUnit_pos

theorem toReal_unsigned (ordinal : Fin ordinalCount) :
    (finite false ordinal).toReal = magnitudeOf ordinal / quantaPerUnit := rfl

theorem toReal_lt_iff {m n : Fin ordinalCount} :
    (finite false m).toReal < (finite false n).toReal ↔ m.val < n.val := by
  rw [toReal_unsigned, toReal_unsigned, div_lt_div_iff_of_pos_right quantaPerUnit_pos_real,
    Nat.cast_lt, magnitudeOf_lt_iff]

theorem toReal_nonpos {negative : Bool} {ordinal : Fin ordinalCount} (h : negative = true) :
    (finite negative ordinal).toReal ≤ 0 := by
  subst h
  refine div_nonpos_of_nonpos_of_nonneg ?_ quantaPerUnit_pos_real.le
  exact Int.cast_nonpos.mpr (Int.neg_nonpos_of_nonneg (Int.natCast_nonneg _))

theorem toReal_nonneg (ordinal : Fin ordinalCount) : 0 ≤ (finite false ordinal).toReal :=
  div_nonneg (Nat.cast_nonneg _) quantaPerUnit_pos_real.le

/-- Between two neighbours there is no value. -/
theorem toReal_le_of_lt_next {m n : Fin ordinalCount} (hnext : n.val = m.val + 1) {z : Binary64}
    (hz : z.isFinite = true) (h : z.toReal < (finite false n).toReal) :
    z.toReal ≤ (finite false m).toReal := by
  cases z with
  | nan => cases hz
  | infinite negative => cases hz
  | finite negative ordinal =>
    cases negative with
    | true => exact (toReal_nonpos rfl).trans (toReal_nonneg m)
    | false =>
      have hlt := toReal_lt_iff.mp h
      refine le_of_not_gt fun hgt => ?_
      have := toReal_lt_iff.mp hgt
      omega

namespace IsNearest

variable {r : ℝ} {y : Binary64} {m n : Fin ordinalCount} (hy : IsNearest r y)

include hy

/-- Beyond the middle between two neighbours the nearest value is not below the greater one. -/
theorem le_of_midpoint_lt (hnext : n.val = m.val + 1)
    (h : (finite false m).toReal + (finite false n).toReal < 2 * r) :
    (finite false n).toReal ≤ y.toReal := by
  by_contra hlt
  have hbelow := toReal_le_of_lt_next hnext hy.isFinite (lt_of_not_ge hlt)
  -- then the greater neighbour is nearer
  have hcloser : |(finite false n).toReal - r| < r - y.toReal :=
    abs_lt.mpr ⟨by linarith, by linarith⟩
  have hfar : r - y.toReal ≤ |y.toReal - r| := by
    rw [abs_sub_comm]
    exact le_abs_self _
  exact absurd (hy.le (finite false n) rfl) (not_le.mpr (hcloser.trans_le hfar))

/-- Short of the middle the nearest value is below the greater neighbour. -/
theorem lt_of_lt_midpoint (hlt : m.val < n.val)
    (h : 2 * r < (finite false m).toReal + (finite false n).toReal) :
    y.toReal < (finite false n).toReal := by
  by_contra hge
  have habove := le_of_not_gt hge
  have horder := toReal_lt_iff.mpr hlt
  have hcloser : |(finite false m).toReal - r| < y.toReal - r :=
    abs_lt.mpr ⟨by linarith, by linarith⟩
  exact absurd (hy.le (finite false m) rfl) (not_le.mpr (hcloser.trans_le (le_abs_self _)))

end IsNearest

end Binary64

end Keypad
