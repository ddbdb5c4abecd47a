import Keypad.Display.Rounding
import Keypad.Proofs.Binary64.Nearest

/-!
# Rounding to decimal places as whole numbers

A value is rounded to places by a product with a power of ten, a rounding to a whole number and a
quotient.  The power of ten and the whole number are exact, so the value becomes the one nearest to
a whole number of units of the last place.

## Main results

* `magnitudeOf_lt_iff`: magnitudes are ordered as their ordinals are
* `roundHalfUp_eq_of_close`: the whole number less than half a unit away is the rounding
* `exists_ofQuotient_units`, `exists_ofQuotient_whole`: numbers of units of up to 53 bits
* `roundTo_finite`: rounding to places, in magnitudes
-/

namespace Keypad

variable {places k : Nat}

theorem ten_pow_pos (n : Nat) : 0 < 10 ^ n := Nat.pow_pos (by decide)

theorem magnitudeOf_injective {m n : Nat} (h : magnitudeOf m = magnitudeOf n) : m = n := by
  rcases Nat.lt_trichotomy m n with hlt | heq | hgt
  · exact absurd h (Nat.ne_of_lt (magnitudeOf_lt_magnitudeOf hlt))
  · exact heq
  · exact absurd h.symm (Nat.ne_of_lt (magnitudeOf_lt_magnitudeOf hgt))

theorem magnitudeOf_lt_iff {m n : Nat} : magnitudeOf m < magnitudeOf n ↔ m < n := by
  refine ⟨fun h => ?_, magnitudeOf_lt_magnitudeOf⟩
  by_contra hle
  rcases Nat.lt_or_eq_of_le (Nat.le_of_not_lt hle) with hlt | rfl
  · exact Nat.lt_asymm h (magnitudeOf_lt_magnitudeOf hlt)
  · exact Nat.lt_irrefl _ h

theorem roundHalfUp_eq_of_close {num den : Nat} (hbelow : 2 * num < (2 * k + 1) * den)
    (habove : 2 * k * den ≤ 2 * num + den) : roundHalfUp num den = k := by
  unfold roundHalfUp
  have hlow : k * (2 * den) ≤ 2 * num + den := by
    calc k * (2 * den) = 2 * k * den := by ring
      _ ≤ 2 * num + den := habove
  have hhigh : 2 * num + den < (k + 1) * (2 * den) := by
    calc 2 * num + den < (2 * k + 1) * den + den := Nat.add_lt_add_right hbelow den
      _ = (k + 1) * (2 * den) := by ring
  exact Nat.div_eq_of_lt_le hlow hhigh

theorem roundHalfUp_mul_self (k : Nat) {den : Nat} (hden : 0 < den) :
    roundHalfUp (k * den) den = k := by
  refine roundHalfUp_eq_of_close ?_ ?_
  · rw [Nat.add_mul, Nat.one_mul, Nat.mul_assoc]
    exact Nat.lt_add_of_pos_right hden
  · rw [Nat.mul_assoc]
    exact Nat.le_add_right _ _

theorem roundHalfUp_le_of_le {num den : Nat} (hden : 0 < den) (h : num ≤ k * den) :
    roundHalfUp num den ≤ k := by
  have hlt : (2 * num + den) / (2 * den) < k + 1 := by
    refine (Nat.div_lt_iff_lt_mul (Nat.mul_pos Nat.two_pos hden)).mpr ?_
    calc 2 * num + den < 2 * (k * den) + 2 * den := by omega
      _ = (k + 1) * (2 * den) := by ring
  exact Nat.le_of_lt_succ hlt

theorem roundHalfUp_le_of_lt {num den : Nat} (hden : 0 < den) (h : num < k * den) :
    roundHalfUp num den ≤ k := roundHalfUp_le_of_le hden h.le

namespace Binary64

theorem ofQuotient_mul_mul (negative : Bool) (num den : Nat) {c : Nat} (hc : 0 < c) :
    ofQuotient negative (num * c) (den * c) = ofQuotient negative num den := by
  unfold ofQuotient
  simp only [nearestOrdinal_mul_mul num den hc]

/-- A quotient is rounded to the value that has its nearest magnitude. -/
theorem ofQuotient_eq_of_nearestMagnitude {num den : Nat} {ordinal : Fin ordinalCount}
    (h : nearestMagnitude num den = magnitudeOf ordinal) (negative : Bool) :
    ofQuotient negative num den = .finite negative ordinal := by
  have hordinal : nearestOrdinal num den = ordinal := magnitudeOf_injective h
  unfold ofQuotient
  simp only [hordinal, ordinal.isLt, dif_pos, Fin.eta]

/-- A number of units of up to 53 bits is rounded to a finite value. -/
theorem exists_ofQuotient_units (hk : k < 2 ^ 53) (den : Nat) (negative : Bool) :
    ∃ ordinal : Fin ordinalCount, ofQuotient negative (k * quantaPerUnit) den =
      .finite negative ordinal ∧
        magnitudeOf ordinal = nearestMagnitude (k * quantaPerUnit) den := by
  have hsmall : k * quantaPerUnit / den < 2 ^ (53 + quantumPlaces) := by
    refine Nat.lt_of_le_of_lt (Nat.div_le_self _ _) ?_
    rw [two_pow_add_quantumPlaces]
    exact Nat.mul_lt_mul_of_pos_right hk quantaPerUnit_pos
  have hplaces : quantumPlaces + 2 < 2047 := by decide
  have hlt : nearestOrdinal (k * quantaPerUnit) den < ordinalCount :=
    Nat.lt_of_le_of_lt (nearestOrdinal_le hsmall)
      (Nat.mul_lt_mul_of_pos_right hplaces (Nat.two_pow_pos 52))
  exact ⟨⟨_, hlt⟩, dif_pos hlt, rfl⟩

/-- Whole numbers of up to 53 bits are kept. -/
theorem exists_ofQuotient_whole (hk : k < 2 ^ 53) (negative : Bool) :
    ∃ ordinal : Fin ordinalCount, ofQuotient negative (k * quantaPerUnit) 1 =
      .finite negative ordinal ∧ magnitudeOf ordinal = k * quantaPerUnit := by
  obtain ⟨ordinal, hvalue, hmagnitude⟩ := exists_ofQuotient_units hk 1 negative
  exact ⟨ordinal, hvalue, hmagnitude.trans (nearestMagnitude_mul hk)⟩

theorem exists_power_ten (h : places ≤ 6) : ∃ factor : Fin ordinalCount,
    ten.power places = .finite false factor ∧
      magnitudeOf factor = 10 ^ places * quantaPerUnit := by
  have hpower : ∀ p ≤ 6, ten.power p = ofNat (10 ^ p) := by decide +kernel
  have hsmall : ∀ p ≤ 6, 10 ^ p < 2 ^ 53 := by decide
  rw [hpower places h]
  exact exists_ofQuotient_whole (hsmall places h) false

theorem mul_power_ten (h : places ≤ 6) (negative : Bool) (ordinal : Fin ordinalCount) :
    (finite negative ordinal).mul (ten.power places) =
      ofQuotient negative (magnitudeOf ordinal * 10 ^ places) 1 := by
  obtain ⟨factor, hpower, hfactor⟩ := exists_power_ten h
  rw [hpower]
  calc ofQuotient (negative != false) (magnitudeOf ordinal * magnitudeOf factor) quantaPerUnit
      = ofQuotient negative (magnitudeOf ordinal * 10 ^ places * quantaPerUnit)
          (1 * quantaPerUnit) := by
        rw [hfactor, Nat.mul_assoc, Nat.one_mul, Bool.bne_false]
    _ = ofQuotient negative (magnitudeOf ordinal * 10 ^ places) 1 :=
        ofQuotient_mul_mul _ _ _ quantaPerUnit_pos

theorem div_power_ten (h : places ≤ 6) (hk : k < 2 ^ 53) (negative : Bool) :
    (ofQuotient negative (k * quantaPerUnit) 1).div (ten.power places) =
      ofQuotient negative (k * quantaPerUnit) (10 ^ places) := by
  obtain ⟨factor, hpower, hfactor⟩ := exists_power_ten h
  obtain ⟨ordinal, hwhole, hordinal⟩ := exists_ofQuotient_whole hk negative
  have hne : factor.val ≠ 0 := by
    intro hzero
    have hpos : 0 < 10 ^ places * quantaPerUnit :=
      Nat.mul_pos (ten_pow_pos places) quantaPerUnit_pos
    rw [hzero] at hfactor
    exact absurd hfactor (Nat.ne_of_lt hpos)
  rw [hpower, hwhole]
  calc (finite negative ordinal).div (finite false factor)
      = ofQuotient (negative != false) (magnitudeOf ordinal * quantaPerUnit)
          (magnitudeOf factor) := if_neg hne
    _ = ofQuotient negative (k * quantaPerUnit) (10 ^ places) := by
        rw [hfactor, hordinal, Bool.bne_false, ofQuotient_mul_mul _ _ _ quantaPerUnit_pos]

/-- Values are compared with the least whole one by their magnitudes. -/
theorem abs_lt_wholeFrom (negative : Bool) (ordinal : Fin ordinalCount) :
    (finite negative ordinal).abs.lt wholeFrom =
      decide (magnitudeOf ordinal < 2 ^ 52 * quantaPerUnit) := by
  obtain ⟨bound, hbound, hmagnitude⟩ :=
    exists_ofQuotient_whole (k := 2 ^ 52) (by decide) false
  have hwhole : wholeFrom = finite false bound := hbound
  rw [hwhole, ← hmagnitude]
  simp [abs, lt, isNaN, rank, magnitudeOf_lt_iff]

/-- **Rounding to places**: with a scaled magnitude below `2 ^ 52` the nearest whole number of units
of the last place is taken, and the value nearest to that. -/
theorem roundTo_finite (h : places ≤ 6) (negative : Bool) (ordinal : Fin ordinalCount) :
    (finite negative ordinal).roundTo places =
      if nearestMagnitude (magnitudeOf ordinal * 10 ^ places) 1 < 2 ^ 52 * quantaPerUnit then
        ofQuotient negative
          (roundHalfUp (nearestMagnitude (magnitudeOf ordinal * 10 ^ places) 1) quantaPerUnit *
            quantaPerUnit) (10 ^ places)
      else finite negative ordinal := by
  unfold roundTo
  dsimp only
  rw [mul_power_ten h]
  by_cases hfinite : nearestOrdinal (magnitudeOf ordinal * 10 ^ places) 1 < ordinalCount
  · obtain ⟨scaled, hscaled, hmagnitude⟩ : ∃ scaled : Fin ordinalCount,
        ofQuotient negative (magnitudeOf ordinal * 10 ^ places) 1 = finite negative scaled ∧
          magnitudeOf scaled = nearestMagnitude (magnitudeOf ordinal * 10 ^ places) 1 :=
      ⟨⟨_, hfinite⟩, dif_pos hfinite, rfl⟩
    rw [hscaled, abs_lt_wholeFrom, ← hmagnitude]
    by_cases hwhole : magnitudeOf scaled < 2 ^ 52 * quantaPerUnit
    · have hk : roundHalfUp (magnitudeOf scaled) quantaPerUnit < 2 ^ 53 :=
        Nat.lt_of_le_of_lt (roundHalfUp_le_of_lt quantaPerUnit_pos hwhole) (by decide)
      rw [if_pos hwhole, decide_eq_true hwhole, if_neg (by simp [isFinite]), ← div_power_ten h hk]
      rfl
    · rw [if_neg hwhole, decide_eq_false hwhole, if_pos (by simp)]
  · have hscaled : ofQuotient negative (magnitudeOf ordinal * 10 ^ places) 1 =
        infinite negative := dif_neg hfinite
    -- infinity stands beyond every magnitude that is scaled down again
    have hwhole : ¬ nearestMagnitude (magnitudeOf ordinal * 10 ^ places) 1 <
        2 ^ 52 * quantaPerUnit := by
      obtain ⟨bound, -, hmagnitude⟩ :=
        exists_ofQuotient_whole (k := 2 ^ 52) (by decide) false
      rw [← hmagnitude, nearestMagnitude, magnitudeOf_lt_iff]
      have := bound.isLt
      omega
    rw [hscaled, if_neg hwhole]
    rfl

end Binary64

end Keypad
