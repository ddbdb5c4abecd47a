import Keypad.Proofs.Binary64.Order
import Keypad.Proofs.Display.Settled

/-!
# Rounding a decimal number to fewer places

A decimal number is read as the nearest value, and that is scaled to be rounded.  Either step is
off by at most one part in `2 ^ 53`, so with forty bits of digits and ten bits of scale the result
is off by less than half a unit of the last digit.  The decimal itself, and the middle between two
whole numbers, are halves of such a unit.  So the decimal is rounded to the whole number it should
be, but for a tie: there an error in either direction counts, and the tie goes up exactly if the
result did not fall below it.

## Main definitions

* `IsTie`: a quotient in the middle between two whole numbers
* `scaledMagnitude`: the magnitude that is rounded to a whole number

## Main results

* `nearestMagnitude_relative`: one rounding, relative to what is rounded
* `scaledMagnitude_close`: reading and scaling are off by less than half a unit of the last digit
* `roundHalfUp_scaledMagnitude_iff`: which decimal numbers are rounded as they should be
-/

namespace Keypad

variable {num den k : Nat}

/-! ## Halves -/

theorem roundHalfUp_eq_iff (hden : 0 < den) : roundHalfUp num den = k ↔
    2 * k * den ≤ 2 * num + den ∧ 2 * num + den < 2 * (k + 1) * den := by
  unfold roundHalfUp
  rw [Nat.div_eq_iff (by omega)]
  constructor
  · rintro ⟨hlow, hhigh⟩
    constructor
    · calc 2 * k * den = k * (2 * den) := by ring
        _ ≤ 2 * num + den := hlow
    · have hnext : 2 * (k + 1) * den = k * (2 * den) + 2 * den := by ring
      omega
  · rintro ⟨hlow, hhigh⟩
    have hself : 2 * k * den = k * (2 * den) := by ring
    have hnext : 2 * (k + 1) * den = k * (2 * den) + 2 * den := by ring
    omega

/-- A quotient in the middle between two whole numbers, which is rounded up. -/
def IsTie (num den : Nat) : Prop := 2 * num + den = 2 * roundHalfUp num den * den

instance (num den : Nat) : Decidable (IsTie num den) := inferInstanceAs (Decidable (_ = _))

/-! ## Errors -/

/-- **One rounding is off by one part in `2 ^ 53`**, or half a quantum. -/
theorem nearestMagnitude_relative (num : Nat) (hden : 0 < den) :
    2 ^ 53 * num ≤ 2 ^ 53 * (nearestMagnitude num den * den) + (num + 2 ^ 52 * den) ∧
      2 ^ 53 * (nearestMagnitude num den * den) ≤ 2 ^ 53 * num + (num + 2 ^ 52 * den) := by
  obtain ⟨hlow, hhigh⟩ := nearestMagnitude_bounds num hden
  have hspacing : 2 ^ 52 * (den * 2 ^ spacingExponent num den) ≤ num + 2 ^ 52 * den := by
    rcases Nat.eq_zero_or_pos (spacingExponent num den) with hzero | hpos
    · rw [hzero, Nat.pow_zero, Nat.mul_one]
      exact Nat.le_add_left _ _
    · calc 2 ^ 52 * (den * 2 ^ spacingExponent num den)
          = 2 ^ (52 + spacingExponent num den) * den := by rw [Nat.pow_add]; ring
        _ ≤ num := two_pow_spacingExponent_le hpos
        _ ≤ num + 2 ^ 52 * den := Nat.le_add_right _ _
  constructor <;> omega

/-- What is rounded to a whole number: the scaled value nearest to a quotient. -/
def scaledMagnitude (num den scale : Nat) : Nat :=
  nearestMagnitude (nearestMagnitude (num * quantaPerUnit) den * scale) 1

variable {scale : Nat}

/-- **Reading and scaling** are off by less than half a unit of the last digit. -/
theorem scaledMagnitude_close (hnum : num < 2 ^ 40) (hden : 0 < den) (hden' : den ≤ 2 ^ 14)
    (hscale : scale ≤ 2 ^ 10) :
    2 * (scaledMagnitude num den scale * den) < 2 * (num * scale * quantaPerUnit) + quantaPerUnit ∧
      2 * (num * scale * quantaPerUnit) <
        2 * (scaledMagnitude num den scale * den) + quantaPerUnit := by
  obtain ⟨hlow, hhigh⟩ := nearestMagnitude_relative (num * quantaPerUnit) hden
  unfold scaledMagnitude
  generalize nearestMagnitude (num * quantaPerUnit) den = m at hlow hhigh ⊢
  obtain ⟨hlow', hhigh'⟩ := nearestMagnitude_relative (m * scale) Nat.one_pos
  generalize nearestMagnitude (m * scale) 1 = scaled at hlow' hhigh' ⊢
  -- both errors, in quanta of a unit of the last digit
  have hexact : num * quantaPerUnit * scale = num * scale * quantaPerUnit := by ring
  have hmiddle : m * den * scale = m * scale * den := by ring
  replace hlow := Nat.mul_le_mul_right scale hlow
  replace hhigh := Nat.mul_le_mul_right scale hhigh
  replace hlow' := Nat.mul_le_mul_right den hlow'
  replace hhigh' := Nat.mul_le_mul_right den hhigh'
  simp only [Nat.add_mul, Nat.mul_assoc (2 ^ 53), Nat.mul_assoc (2 ^ 52), Nat.mul_one,
    hexact, hmiddle] at hlow hhigh hlow' hhigh'
  -- the decimal has fifty bits, and half a quantum is nothing beside a unit
  have hlarge : num * scale * quantaPerUnit ≤ 2 ^ 50 * quantaPerUnit := by
    refine Nat.mul_le_mul_right _ ?_
    calc num * scale ≤ 2 ^ 40 * 2 ^ 10 := Nat.mul_le_mul hnum.le hscale
      _ = 2 ^ 50 := by decide
  have hquantum : den * scale ≤ 2 ^ 24 := by
    calc den * scale ≤ 2 ^ 14 * 2 ^ 10 := Nat.mul_le_mul hden' hscale
      _ = 2 ^ 24 := by decide
  have hunit : 2 ^ 100 ≤ quantaPerUnit := Nat.pow_le_pow_right Nat.two_pos (by decide)
  generalize num * scale * quantaPerUnit = exact at *
  generalize m * scale * den = middle at *
  generalize scaled * den = result at *
  generalize den * scale = factor at *
  generalize quantaPerUnit = unit at *
  omega

/-! ## Ties -/

section Close

variable {scaled n : Nat}

/-- A quotient below a half, in whole numbers, is below it also when it is off by less than one. -/
theorem lt_half_of_close (h : 2 * num + den < 2 * n * den)
    (hclose : 2 * (scaled * den) < 2 * (num * quantaPerUnit) + quantaPerUnit) :
    2 * scaled + quantaPerUnit < 2 * n * quantaPerUnit := by
  refine Nat.lt_of_mul_lt_mul_right (a := den) ?_
  calc (2 * scaled + quantaPerUnit) * den = 2 * (scaled * den) + den * quantaPerUnit := by ring
    _ < 2 * (num * quantaPerUnit) + quantaPerUnit + den * quantaPerUnit :=
        Nat.add_lt_add_right hclose _
    _ = (2 * num + den + 1) * quantaPerUnit := by ring
    _ ≤ 2 * n * den * quantaPerUnit := Nat.mul_le_mul_right _ h
    _ = 2 * n * quantaPerUnit * den := by ring

/-- A quotient above a half, in whole numbers, is above it also when it is off by less than one. -/
theorem half_le_of_close (hden : 0 < den) (h : 2 * n * den < 2 * num + den)
    (hclose : 2 * (num * quantaPerUnit) < 2 * (scaled * den) + quantaPerUnit) :
    2 * n * quantaPerUnit ≤ 2 * scaled + quantaPerUnit := by
  refine Nat.le_of_mul_le_mul_right (c := den) ?_ hden
  have hfew : (2 * n * den + 1) * quantaPerUnit ≤ (2 * num + den) * quantaPerUnit :=
    Nat.mul_le_mul_right _ h
  have hleft : (2 * n * den + 1) * quantaPerUnit =
      2 * n * quantaPerUnit * den + quantaPerUnit := by ring
  have hright : (2 * num + den) * quantaPerUnit =
      2 * (num * quantaPerUnit) + den * quantaPerUnit := by ring
  have hscaled : (2 * scaled + quantaPerUnit) * den =
      2 * (scaled * den) + den * quantaPerUnit := by ring
  omega

end Close

/-- **Decimal numbers with more places than are kept** are rounded as they should be, but for a tie
at which reading and scaling led below it. -/
theorem roundHalfUp_scaledMagnitude_iff (hnum : num < 2 ^ 40) (hden : 0 < den)
    (hden' : den ≤ 2 ^ 14) (hscale : scale ≤ 2 ^ 10) :
    roundHalfUp (scaledMagnitude num den scale) quantaPerUnit = roundHalfUp (num * scale) den ↔
      (IsTie (num * scale) den →
        2 * roundHalfUp (num * scale) den * quantaPerUnit ≤
          2 * scaledMagnitude num den scale + quantaPerUnit) := by
  obtain ⟨habove, hbelow⟩ := scaledMagnitude_close hnum hden hden' hscale
  rw [roundHalfUp_eq_iff quantaPerUnit_pos]
  unfold IsTie
  generalize hk : roundHalfUp (num * scale) den = k
  obtain ⟨hlow, hhigh⟩ := (roundHalfUp_eq_iff hden).mp hk
  constructor
  · exact fun h _ => h.1
  · intro h
    refine ⟨?_, lt_half_of_close hhigh habove⟩
    by_cases htie : 2 * (num * scale) + den = 2 * k * den
    · exact h htie
    · exact half_le_of_close hden (by omega) hbelow

end Keypad
