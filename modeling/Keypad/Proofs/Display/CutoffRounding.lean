import Keypad.Proofs.Binary64.Order
import Keypad.Proofs.Display.TieRounding

/-!
# Rounding in the binade of the cut-off

In the binade in which the scaled value reaches `2 ^ 52` units of the last place, scaling leads to a
whole number of half units below the cut-off.  A value of this binade lies within half a unit of its
own number of units, and is scaled to it or to half a unit on either side; half a unit below is
rounded up to it again, but half a unit above is rounded to the next number of units.  So a value is
rounded to its own number of units exactly if it exceeds that by a quarter of a unit at most.  What
was rounded one too high stays too high when it is rounded again.

## Main definitions

* `halfUnit`: half a unit, in quanta
* `placedMagnitude`: the magnitude that a magnitude is rounded to

## Main results

* `nearestMagnitude_close_of_lt`: a value lies within half a unit of its number of units
* `roundHalfUp_nearestMagnitude_iff`: which values are rounded to their own number of units
* `le_roundEven_placedMagnitude`: rounding again leads to no smaller number of units
-/

namespace Keypad

/-- Half a unit, in quanta. -/
def halfUnit : Nat := 2 ^ (quantumPlaces - 1)

theorem two_mul_halfUnit : 2 * halfUnit = quantaPerUnit := by
  have hplaces : quantumPlaces - 1 + 1 = quantumPlaces := by decide
  unfold halfUnit quantaPerUnit
  conv_rhs => rw [← hplaces, Nat.pow_succ']

theorem halfUnit_pos : 0 < halfUnit := Nat.two_pow_pos _

variable {num den c k m places : Nat}

/-- At most the even neighbour is reached from the middle between two whole numbers. -/
theorem roundEven_le_of_even (hden : 0 < den) (hk : k % 2 = 0)
    (h : 2 * num ≤ (2 * k + 1) * den) : roundEven num den ≤ k := by
  have hdivision := Nat.div_add_mod num den
  have hrest := Nat.mod_lt num hden
  have hfloor : num / den < k + 1 := by
    refine (Nat.div_lt_iff_lt_mul hden).mpr ?_
    have hnext : (2 * k + 1) * den + den = 2 * ((k + 1) * den) := by ring
    omega
  unfold roundEven
  dsimp only
  rcases Nat.lt_or_eq_of_le (Nat.le_of_lt_succ hfloor) with hlt | heq
  · split
    · omega
    split
    · omega
    · omega
  · -- above the even whole number itself less than half is left, or just a half
    have hleft : 2 * (num % den) ≤ den := by
      rw [heq] at hdivision
      have hself : (2 * k + 1) * den = 2 * (den * k) + den := by ring
      omega
    split
    · omega
    split
    · omega
    · omega

/-! ## Half units -/

/-- Below the cut-off the values of its binade are whole numbers of half units. -/
theorem nearestMagnitude_eq_mul_halfUnit (hbegin : 2 ^ 51 * quantaPerUnit ≤ num)
    (hend : nearestMagnitude num 1 < 2 ^ 52 * quantaPerUnit) :
    nearestMagnitude num 1 = roundEven num halfUnit * halfUnit := by
  have hplaces : 1 ≤ quantumPlaces := by decide
  have hfirst : 52 + (quantumPlaces - 1) = 51 + quantumPlaces := by omega
  have hlast : 53 + (quantumPlaces - 1) = 52 + quantumPlaces := by omega
  have hlow : 2 ^ (52 + (quantumPlaces - 1)) * 1 ≤ num := by
    rw [Nat.mul_one, hfirst, two_pow_add_quantumPlaces]
    exact hbegin
  have hhigh : num < 2 ^ (53 + (quantumPlaces - 1)) * 1 := by
    by_contra hge
    have hlarge := two_pow_le_nearestMagnitude Nat.one_pos (Nat.le_of_not_lt hge)
    rw [hlast, two_pow_add_quantumPlaces] at hlarge
    exact absurd hend (Nat.not_lt.mpr hlarge)
  have hspacing : spacingExponent num 1 = quantumPlaces - 1 :=
    Nat.le_antisymm (spacingExponent_le hhigh) (le_spacingExponent Nat.one_pos hlow)
  rw [nearestMagnitude_eq num Nat.one_pos, hspacing, Nat.one_mul]
  rfl

/-- A whole number of half units is rounded up. -/
theorem roundHalfUp_mul_halfUnit (j : Nat) :
    roundHalfUp (j * halfUnit) quantaPerUnit = (j + 1) / 2 := by
  have hnum : 2 * (j * halfUnit) + quantaPerUnit = (j + 1) * quantaPerUnit := by
    rw [← two_mul_halfUnit]
    ring
  rw [roundHalfUp, hnum, Nat.mul_div_mul_right _ _ quantaPerUnit_pos]

section Binade

variable (hbegin : 2 ^ 51 * quantaPerUnit ≤ num)
  (hend : nearestMagnitude num 1 < 2 ^ 52 * quantaPerUnit)

include hbegin hend

theorem roundHalfUp_nearestMagnitude :
    roundHalfUp (nearestMagnitude num 1) quantaPerUnit = (roundEven num halfUnit + 1) / 2 := by
  rw [nearestMagnitude_eq_mul_halfUnit hbegin hend, roundHalfUp_mul_halfUnit]

/-- Within half a unit above its number of units, or less below it, a value keeps that number or is
rounded one higher. -/
theorem roundHalfUp_nearestMagnitude_bounds
    (hbelow : 2 * (k * quantaPerUnit) < 2 * num + quantaPerUnit)
    (habove : 2 * num < 2 * (k * quantaPerUnit) + quantaPerUnit) :
    k ≤ roundHalfUp (nearestMagnitude num 1) quantaPerUnit ∧
      roundHalfUp (nearestMagnitude num 1) quantaPerUnit ≤ k + 1 := by
  obtain ⟨hlow, hhigh⟩ := roundEven_bounds num halfUnit halfUnit_pos
  rw [roundHalfUp_nearestMagnitude hbegin hend]
  rw [← two_mul_halfUnit] at hbelow habove
  generalize roundEven num halfUnit = j at *
  have hless : 4 * k < 2 * j + 3 := by
    refine Nat.lt_of_mul_lt_mul_right (a := halfUnit) ?_
    calc 4 * k * halfUnit = 2 * (k * (2 * halfUnit)) := by ring
      _ < 2 * num + 2 * halfUnit := hbelow
      _ ≤ (2 * j + 1) * halfUnit + 2 * halfUnit := Nat.add_le_add_right hlow _
      _ = (2 * j + 3) * halfUnit := by ring
  have hmore : 2 * j < 4 * k + 3 := by
    refine Nat.lt_of_mul_lt_mul_right (a := halfUnit) ?_
    calc 2 * j * halfUnit ≤ 2 * num + halfUnit := hhigh
      _ < 2 * (k * (2 * halfUnit)) + 2 * halfUnit + halfUnit := Nat.add_lt_add_right habove _
      _ = (4 * k + 3) * halfUnit := by ring
  omega

/-- **Rounding to its own number of units**: a value keeps it that exceeds it by a quarter of a unit
at most. -/
theorem roundHalfUp_nearestMagnitude_iff
    (hbelow : 2 * (k * quantaPerUnit) < 2 * num + quantaPerUnit)
    (habove : 2 * num < 2 * (k * quantaPerUnit) + quantaPerUnit) :
    roundHalfUp (nearestMagnitude num 1) quantaPerUnit = k ↔
      4 * num ≤ (4 * k + 1) * quantaPerUnit := by
  obtain ⟨hleast, -⟩ := roundHalfUp_nearestMagnitude_bounds hbegin hend hbelow habove
  rw [roundHalfUp_nearestMagnitude hbegin hend] at hleast ⊢
  have hquarter : (4 * k + 1) * quantaPerUnit = 2 * ((2 * (2 * k) + 1) * halfUnit) := by
    rw [← two_mul_halfUnit]; ring
  rw [hquarter]
  constructor
  · intro hself
    have hj : roundEven num halfUnit ≤ 2 * k := by omega
    have hlow := (roundEven_bounds num halfUnit halfUnit_pos).1
    have hmul : (2 * roundEven num halfUnit + 1) * halfUnit ≤ (2 * (2 * k) + 1) * halfUnit :=
      Nat.mul_le_mul_right _ (by omega)
    omega
  · intro hmiddle
    have hnum : 2 * num ≤ (2 * (2 * k) + 1) * halfUnit := by omega
    have hj := roundEven_le_of_even halfUnit_pos (Nat.mul_mod_right 2 k) hnum
    omega

end Binade

/-! ## Rounding again -/

/-- Up to the end of the binade of the cut-off a value lies within half a unit of its number of
units. -/
theorem nearestMagnitude_close_of_lt (hden : 0 < den) (hlow : 2 ^ c * den < 2 ^ 52)
    (hend : nearestMagnitude (k * quantaPerUnit) den < 2 ^ (c + 1) * quantaPerUnit) :
    2 * (k * quantaPerUnit) < 2 * (nearestMagnitude (k * quantaPerUnit) den * den) + quantaPerUnit ∧
      2 * (nearestMagnitude (k * quantaPerUnit) den * den) <
        2 * (k * quantaPerUnit) + quantaPerUnit := by
  have hquotient : k * quantaPerUnit < 2 ^ (c + 1) * quantaPerUnit * den := by
    by_contra hge
    rw [← two_pow_add_quantumPlaces] at hge hend
    exact absurd hend
      (Nat.not_lt.mpr (two_pow_le_nearestMagnitude hden (Nat.le_of_not_lt hge)))
  have hspacing := mul_two_pow_spacingExponent_le hquotient
  have hunits : 2 ^ (c + 1) * den * quantaPerUnit < 2 ^ 53 * quantaPerUnit := by
    refine Nat.mul_lt_mul_of_pos_right ?_ quantaPerUnit_pos
    rw [Nat.pow_succ, Nat.mul_right_comm]
    omega
  obtain ⟨hlower, hupper⟩ := nearestMagnitude_bounds (k * quantaPerUnit) hden
  omega

theorem roundEven_of_close (hbelow : 2 * (k * quantaPerUnit) < 2 * num + quantaPerUnit)
    (habove : 2 * num < 2 * (k * quantaPerUnit) + quantaPerUnit) :
    roundEven num quantaPerUnit = k := by
  refine roundEven_eq_of_close quantaPerUnit_pos ?_ ?_
  · rw [Nat.add_mul, Nat.one_mul, Nat.mul_assoc]
    exact habove
  · rw [Nat.mul_assoc]
    exact hbelow

/-- The magnitude that a magnitude is rounded to. -/
def placedMagnitude (places m : Nat) : Nat :=
  if nearestMagnitude (m * 10 ^ places) 1 < 2 ^ 52 * quantaPerUnit then
    nearestMagnitude
      (roundHalfUp (nearestMagnitude (m * 10 ^ places) 1) quantaPerUnit * quantaPerUnit)
      (10 ^ places)
  else m

/-- Below the cut-off a number of units is rounded to itself, and written as it is. -/
theorem placedMagnitude_of_lt (hlow : 2 ^ c * 10 ^ places < 2 ^ 52)
    (hbelow : nearestMagnitude (k * quantaPerUnit) (10 ^ places) < 2 ^ c * quantaPerUnit) :
    placedMagnitude places (nearestMagnitude (k * quantaPerUnit) (10 ^ places)) =
        nearestMagnitude (k * quantaPerUnit) (10 ^ places) ∧
      roundEven (nearestMagnitude (k * quantaPerUnit) (10 ^ places) * 10 ^ places)
        quantaPerUnit = k := by
  obtain ⟨hwritten, hscaled, hunits⟩ := units_of_nearestMagnitude (ten_pow_pos places) hlow hbelow
  refine ⟨?_, hwritten⟩
  rw [placedMagnitude, if_pos hscaled, hunits]

section Cutoff

variable (hlow : 2 ^ c * 10 ^ places < 2 ^ 52) (hhigh : 2 ^ 52 < 2 ^ (c + 1) * 10 ^ places)

include hlow hhigh

omit hlow in
/-- The binade of the cut-off begins above half of it. -/
theorem half_cutoff_lt : 2 ^ 51 < 2 ^ c * 10 ^ places := by
  rw [Nat.pow_succ 2 c, Nat.mul_right_comm] at hhigh
  omega

omit hlow in
/-- Scaled, the values from the binade of the cut-off on have half of the cut-off at least. -/
theorem half_cutoff_le_mul (hm : 2 ^ c * quantaPerUnit ≤ m) :
    2 ^ 51 * quantaPerUnit ≤ m * 10 ^ places := by
  calc 2 ^ 51 * quantaPerUnit ≤ 2 ^ c * 10 ^ places * quantaPerUnit :=
        Nat.mul_le_mul_right _ (half_cutoff_lt hhigh).le
    _ = 2 ^ c * quantaPerUnit * 10 ^ places := Nat.mul_right_comm _ _ _
    _ ≤ m * 10 ^ places := Nat.mul_le_mul_right _ hm

omit hlow in
/-- What is rounded lies before the end of the binade of the cut-off. -/
theorem lt_of_nearestMagnitude_lt
    (hend : nearestMagnitude (m * 10 ^ places) 1 < 2 ^ 52 * quantaPerUnit) :
    m < 2 ^ (c + 1) * quantaPerUnit := by
  by_contra hge
  have hlarge : 2 ^ (52 + quantumPlaces) * 1 ≤ m * 10 ^ places := by
    calc 2 ^ (52 + quantumPlaces) * 1 = 2 ^ 52 * quantaPerUnit := by
          rw [Nat.mul_one, two_pow_add_quantumPlaces]
      _ ≤ 2 ^ (c + 1) * 10 ^ places * quantaPerUnit := Nat.mul_le_mul_right _ hhigh.le
      _ = 2 ^ (c + 1) * quantaPerUnit * 10 ^ places := Nat.mul_right_comm _ _ _
      _ ≤ m * 10 ^ places := Nat.mul_le_mul_right _ (Nat.le_of_not_lt hge)
  have := two_pow_le_nearestMagnitude Nat.one_pos hlarge
  rw [two_pow_add_quantumPlaces] at this
  omega

/-- Up to the cut-off a number of units is written as it is. -/
theorem roundEven_nearestMagnitude_of_le (hk : k ≤ 2 ^ 52) :
    roundEven (nearestMagnitude (k * quantaPerUnit) (10 ^ places) * 10 ^ places) quantaPerUnit =
      k := by
  have hend := nearestMagnitude_lt_of_le (ten_pow_pos places) hlow hhigh hk
  obtain ⟨hbelow, habove⟩ := nearestMagnitude_close_of_lt (ten_pow_pos places) hlow hend
  exact roundEven_of_close hbelow habove

/-- **Rounding again**: from the binade of the cut-off on, a number of units does not become
smaller. -/
theorem le_roundEven_placedMagnitude (hk : k ≤ 2 ^ 52)
    (hbegin : 2 ^ c * quantaPerUnit ≤ nearestMagnitude (k * quantaPerUnit) (10 ^ places)) :
    k ≤ roundEven (placedMagnitude places
      (nearestMagnitude (k * quantaPerUnit) (10 ^ places)) * 10 ^ places) quantaPerUnit := by
  have hend := nearestMagnitude_lt_of_le (ten_pow_pos places) hlow hhigh hk
  obtain ⟨hbelow, habove⟩ := nearestMagnitude_close_of_lt (ten_pow_pos places) hlow hend
  unfold placedMagnitude
  split
  · rename_i hwhole
    obtain ⟨hleast, -⟩ := roundHalfUp_nearestMagnitude_bounds (half_cutoff_le_mul hhigh hbegin)
      hwhole hbelow habove
    have hagain := roundHalfUp_le_of_lt quantaPerUnit_pos hwhole
    rwa [roundEven_nearestMagnitude_of_le hlow hhigh hagain]
  · rw [roundEven_of_close hbelow habove]

/-- **Rounded twice and written**, a number of units stays what it is, unless the value nearest to
it is too far from it. -/
theorem roundEven_placedMagnitude_placedMagnitude_iff :
    roundEven (placedMagnitude places (placedMagnitude places
        (nearestMagnitude (k * quantaPerUnit) (10 ^ places))) * 10 ^ places) quantaPerUnit = k ↔
      (2 ^ c * quantaPerUnit ≤ nearestMagnitude (k * quantaPerUnit) (10 ^ places) →
        roundEven (nearestMagnitude (k * quantaPerUnit) (10 ^ places) * 10 ^ places)
            quantaPerUnit = k ∧
          (nearestMagnitude (nearestMagnitude (k * quantaPerUnit) (10 ^ places) * 10 ^ places) 1 <
              2 ^ 52 * quantaPerUnit →
            4 * (nearestMagnitude (k * quantaPerUnit) (10 ^ places) * 10 ^ places) ≤
              (4 * k + 1) * quantaPerUnit)) := by
  generalize hm : nearestMagnitude (k * quantaPerUnit) (10 ^ places) = m
  rcases Nat.lt_or_ge m (2 ^ c * quantaPerUnit) with hbelow | hbegin
  · -- below the binade of the cut-off nothing changes
    rw [← hm] at hbelow
    obtain ⟨hself, hwritten⟩ := placedMagnitude_of_lt hlow hbelow
    rw [hm] at hself hwritten hbelow
    rw [hself, hself]
    exact iff_of_true hwritten fun hbegin => absurd hbegin (Nat.not_le.mpr hbelow)
  rcases Nat.lt_or_ge (nearestMagnitude (m * 10 ^ places) 1) (2 ^ 52 * quantaPerUnit)
    with hwhole | hkept
  · have hend := lt_of_nearestMagnitude_lt hhigh hwhole
    have hclose := nearestMagnitude_close_of_lt (k := k) (ten_pow_pos places) hlow (by rwa [hm])
    rw [hm] at hclose
    have hhalf := half_cutoff_le_mul hhigh hbegin
    have hwritten := roundEven_of_close hclose.1 hclose.2
    have hquarter := roundHalfUp_nearestMagnitude_iff hhalf hwhole hclose.1 hclose.2
    have hrounded : placedMagnitude places m = nearestMagnitude
        (roundHalfUp (nearestMagnitude (m * 10 ^ places) 1) quantaPerUnit * quantaPerUnit)
          (10 ^ places) := if_pos hwhole
    by_cases hself : roundHalfUp (nearestMagnitude (m * 10 ^ places) 1) quantaPerUnit = k
    · rw [hself, hm] at hrounded
      rw [hrounded, hrounded]
      exact iff_of_true hwritten fun _ => ⟨hwritten, fun _ => hquarter.mp hself⟩
    · -- one too high, and it stays so
      obtain ⟨hleast, -⟩ :=
        roundHalfUp_nearestMagnitude_bounds hhalf hwhole hclose.1 hclose.2
      have hunits := roundHalfUp_le_of_lt quantaPerUnit_pos hwhole
      generalize roundHalfUp (nearestMagnitude (m * 10 ^ places) 1) quantaPerUnit = first at *
      have hmore : 2 ^ c * quantaPerUnit ≤
          nearestMagnitude (first * quantaPerUnit) (10 ^ places) := by
        refine hbegin.trans (hm.ge.trans ?_)
        refine nearestMagnitude_le_nearestMagnitude (ten_pow_pos places) (ten_pow_pos places) ?_
        exact Nat.mul_le_mul_right _ (Nat.mul_le_mul_right _ hleast)
      have hhigher := le_roundEven_placedMagnitude hlow hhigh hunits hmore
      rw [hrounded]
      refine iff_of_false (by omega) fun h => hself (hquarter.mpr ((h hbegin).2 hwhole))
  · -- above the cut-off nothing is rounded
    have hself : placedMagnitude places m = m := if_neg (Nat.not_lt.mpr hkept)
    rw [hself, hself]
    exact ⟨fun h _ => ⟨h, fun hlt => absurd hlt (Nat.not_lt.mpr hkept)⟩, fun h => (h hbegin).1⟩

end Cutoff

end Keypad
