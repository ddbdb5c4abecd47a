import Keypad.Proofs.Display.Places

/-!
# Values that rounding and writing leave alone

To places, a value is rounded to a whole number of units of the last place, unless its scaled value
reaches `2 ^ 52`.  That happens inside one binade, the one of the cut-off.  Below it a rounding of
the scaled value is off by at most a quarter of a unit, so a rounded value has its number of units
again.  Above it the spacing of values is wider than a unit, so a value is nearest to its own number
of units.  In either case a rounded value is settled: rounding it again and writing it lead back to
it.

## Main definitions

* `cutoffExponent`, `Binary64.IsNearCutoff`: the binade of the cut-off
* `Binary64.toPlaces`: the value nearest to what is written of a value
* `Binary64.IsSettled`

## Main results

* `units_of_nearestMagnitude`: the number of units of a rounded value, below the cut-off
* `nearestMagnitude_roundEven`: a value and its number of units, above the cut-off
* `isSettled_of_not_isNearCutoff`: a rounded value is settled, but near the cut-off
-/

namespace Keypad

/-! ## The binade of the cut-off

The scaled value reaches `2 ^ 52` inside one binade. -/

/-- The exponent of the binade in which values reach `2 ^ 52` units of the last place. -/
def cutoffExponent (places : Nat) : Nat := (2 ^ 52 / 10 ^ places).log2

/-- No power of ten but the first divides the cut-off, so it lies inside its binade. -/
theorem cutoffExponent_bounds {places : Nat} (hpos : 1 ≤ places) (h : places ≤ 6) :
    2 ^ cutoffExponent places * 10 ^ places < 2 ^ 52 ∧
      2 ^ 52 < 2 ^ (cutoffExponent places + 1) * 10 ^ places := by
  have hall : ∀ p ≤ 6, 1 ≤ p → 2 ^ cutoffExponent p * 10 ^ p < 2 ^ 52 ∧
      2 ^ 52 < 2 ^ (cutoffExponent p + 1) * 10 ^ p := by decide +kernel
  exact hall places h hpos

variable {num den c k m : Nat}

/-- Below a power of two the spacing has 53 bits less. -/
theorem mul_two_pow_spacingExponent_le (h : num < 2 ^ c * quantaPerUnit * den) :
    2 ^ 53 * (den * 2 ^ spacingExponent num den) ≤ 2 ^ c * den * quantaPerUnit := by
  have hplaces : quantumPlaces = 1074 := rfl
  have hexponent : 53 + (c + quantumPlaces - 53) = c + quantumPlaces := by omega
  have hle : spacingExponent num den ≤ c + quantumPlaces - 53 := by
    refine spacingExponent_le ?_
    rwa [hexponent, two_pow_add_quantumPlaces]
  calc 2 ^ 53 * (den * 2 ^ spacingExponent num den)
      = den * 2 ^ (53 + spacingExponent num den) := by rw [Nat.pow_add]; ring
    _ ≤ den * 2 ^ (c + quantumPlaces) :=
        Nat.mul_le_mul_left den (Nat.pow_le_pow_right Nat.two_pos (by omega))
    _ = 2 ^ c * den * quantaPerUnit := by rw [two_pow_add_quantumPlaces]; ring

/-- **Below the cut-off** a value has a whole number of units again: rounded to even, as when it is
written, and scaled and rounded up, as when it is rounded once more. -/
theorem units_of_nearestMagnitude (hden : 0 < den) (hlow : 2 ^ c * den < 2 ^ 52)
    (hbelow : nearestMagnitude (k * quantaPerUnit) den < 2 ^ c * quantaPerUnit) :
    roundEven (nearestMagnitude (k * quantaPerUnit) den * den) quantaPerUnit = k ∧
      nearestMagnitude (nearestMagnitude (k * quantaPerUnit) den * den) 1 <
        2 ^ 52 * quantaPerUnit ∧
      roundHalfUp (nearestMagnitude (nearestMagnitude (k * quantaPerUnit) den * den) 1)
        quantaPerUnit = k := by
  have hquotient : k * quantaPerUnit < 2 ^ c * quantaPerUnit * den := by
    by_contra hge
    rw [← two_pow_add_quantumPlaces] at hge hbelow
    exact absurd hbelow
      (Nat.not_lt.mpr (two_pow_le_nearestMagnitude hden (Nat.le_of_not_lt hge)))
  have hk : (k + 1) * quantaPerUnit ≤ 2 ^ 52 * quantaPerUnit := by
    refine Nat.mul_le_mul_right _ ?_
    rw [Nat.mul_right_comm] at hquotient
    have := Nat.lt_of_mul_lt_mul_right hquotient
    omega
  have hpos := quantaPerUnit_pos
  -- one rounding of the quotient is off by less than a quarter of a unit
  have hspacing := mul_two_pow_spacingExponent_le hquotient
  have hlow' : 2 ^ c * den * quantaPerUnit < 2 ^ 52 * quantaPerUnit :=
    Nat.mul_lt_mul_of_pos_right hlow hpos
  obtain ⟨hlower, hupper⟩ := nearestMagnitude_bounds (k * quantaPerUnit) hden
  generalize nearestMagnitude (k * quantaPerUnit) den * den = scaled at *
  rw [Nat.add_mul, Nat.one_mul] at hk
  have hscaled : scaled < 2 ^ 52 * quantaPerUnit * 1 := by omega
  -- and scaling it is off by a quarter of a unit at most
  have hspacing' := mul_two_pow_spacingExponent_le hscaled
  obtain ⟨hlower', hupper'⟩ := nearestMagnitude_bounds scaled Nat.one_pos
  generalize nearestMagnitude scaled 1 = product at *
  have hnext : (2 * k + 1) * quantaPerUnit = 2 * (k * quantaPerUnit) + quantaPerUnit := by ring
  have hself : 2 * k * quantaPerUnit = 2 * (k * quantaPerUnit) := Nat.mul_assoc 2 k _
  refine ⟨roundEven_eq_of_close hpos ?_ ?_, ?_, roundHalfUp_eq_of_close ?_ ?_⟩ <;> omega

/-- What is rounded stays below the end of the binade of the cut-off. -/
theorem nearestMagnitude_lt_of_le (hden : 0 < den) (hlow : 2 ^ c * den < 2 ^ 52)
    (hhigh : 2 ^ 52 < 2 ^ (c + 1) * den) (hk : k ≤ 2 ^ 52) :
    nearestMagnitude (k * quantaPerUnit) den < 2 ^ (c + 1) * quantaPerUnit := by
  have hpos := quantaPerUnit_pos
  have hunits : k * quantaPerUnit ≤ 2 ^ 52 * quantaPerUnit := Nat.mul_le_mul_right _ hk
  have hend : 2 ^ 52 * quantaPerUnit + quantaPerUnit ≤ 2 ^ (c + 1) * quantaPerUnit * den := by
    calc 2 ^ 52 * quantaPerUnit + quantaPerUnit = (2 ^ 52 + 1) * quantaPerUnit := by ring
      _ ≤ 2 ^ (c + 1) * den * quantaPerUnit := Nat.mul_le_mul_right _ hhigh
      _ = 2 ^ (c + 1) * quantaPerUnit * den := Nat.mul_right_comm _ _ _
  have hquotient : k * quantaPerUnit < 2 ^ (c + 1) * quantaPerUnit * den := by omega
  have hspacing := mul_two_pow_spacingExponent_le hquotient
  have hlow' : 2 ^ (c + 1) * den * quantaPerUnit < 2 ^ 53 * quantaPerUnit := by
    refine Nat.mul_lt_mul_of_pos_right ?_ hpos
    rw [Nat.pow_succ, Nat.mul_right_comm]
    omega
  have hupper := (nearestMagnitude_bounds (k * quantaPerUnit) hden).2
  by_contra hge
  have hmul := Nat.mul_le_mul_right den (Nat.le_of_not_lt hge)
  omega

/-- What is not rounded does not stay below the binade of the cut-off. -/
theorem le_of_cutoff_le_nearestMagnitude (hden : 0 < den) (hlow : 2 ^ c * den < 2 ^ 52)
    (h : 2 ^ 52 * quantaPerUnit ≤ nearestMagnitude (m * den) 1) : 2 ^ c * quantaPerUnit ≤ m := by
  by_contra hlt
  have hpos := quantaPerUnit_pos
  have hscaled : m * den < 2 ^ c * den * quantaPerUnit := by
    calc m * den < 2 ^ c * quantaPerUnit * den := Nat.mul_lt_mul_of_pos_right (by omega) hden
      _ = 2 ^ c * den * quantaPerUnit := Nat.mul_right_comm _ _ _
  have hlow' : 2 ^ c * den * quantaPerUnit + quantaPerUnit ≤ 2 ^ 52 * quantaPerUnit := by
    calc 2 ^ c * den * quantaPerUnit + quantaPerUnit
        = (2 ^ c * den + 1) * quantaPerUnit := by ring
      _ ≤ 2 ^ 52 * quantaPerUnit := Nat.mul_le_mul_right _ hlow
  have hproduct : m * den < 2 ^ 52 * quantaPerUnit * 1 := by omega
  have hspacing := mul_two_pow_spacingExponent_le hproduct
  have hupper := (nearestMagnitude_bounds (m * den) Nat.one_pos).2
  omega

/-- **Above the cut-off** the spacing is wider than a unit of the last place, so a value is nearest
to its own whole number of units. -/
theorem nearestMagnitude_roundEven {n : Nat} (hden : 0 < den) (hhigh : 2 ^ 52 < 2 ^ (c + 1) * den)
    (habove : 2 ^ (c + 1) * quantaPerUnit ≤ magnitudeOf n) :
    nearestMagnitude (roundEven (magnitudeOf n * den) quantaPerUnit * quantaPerUnit) den =
      magnitudeOf n := by
  have hpos := quantaPerUnit_pos
  have hplaces : quantumPlaces = 1074 := rfl
  rw [← two_pow_add_quantumPlaces] at habove
  have hlarge : 2 ^ 52 ≤ 2 ^ (c + 1 + quantumPlaces) :=
    Nat.pow_le_pow_right Nat.two_pos (by omega)
  obtain ⟨m, e, hmagnitude, hm, hm'⟩ := exists_magnitudeOf_eq (hlarge.trans habove)
  rw [hmagnitude] at habove ⊢
  have hexponent : c + 1 + quantumPlaces < 53 + e := by
    have hlt : 2 ^ (c + 1 + quantumPlaces) < 2 ^ (53 + e) := by
      calc 2 ^ (c + 1 + quantumPlaces) ≤ m * 2 ^ e := habove
        _ < 2 ^ 53 * 2 ^ e := Nat.mul_lt_mul_of_pos_right hm' (Nat.two_pow_pos e)
        _ = 2 ^ (53 + e) := (Nat.pow_add 2 53 e).symm
    exact (Nat.pow_lt_pow_iff_right (by decide)).mp hlt
  -- so the spacing is wider than a unit
  have hspacing : quantaPerUnit < den * 2 ^ e := by
    have : 2 ^ 52 * quantaPerUnit < 2 ^ 52 * (den * 2 ^ e) := by
      calc 2 ^ 52 * quantaPerUnit < 2 ^ (c + 1) * den * quantaPerUnit :=
            Nat.mul_lt_mul_of_pos_right hhigh hpos
        _ = den * 2 ^ (c + 1 + quantumPlaces) := by rw [two_pow_add_quantumPlaces]; ring
        _ ≤ den * 2 ^ (52 + e) :=
            Nat.mul_le_mul_left den (Nat.pow_le_pow_right Nat.two_pos (by omega))
        _ = 2 ^ 52 * (den * 2 ^ e) := by rw [Nat.pow_add]; ring
    omega
  -- the beginning of the binade is a whole number of units
  have hbegins : 2 ^ (52 + e) * den ≤
      roundEven (m * 2 ^ e * den) quantaPerUnit * quantaPerUnit := by
    have hunits : 2 ^ (52 + e) * den = 2 ^ (52 + e - quantumPlaces) * den * quantaPerUnit := by
      have hsplit : 52 + e = 52 + e - quantumPlaces + quantumPlaces := by omega
      rw [hsplit, two_pow_add_quantumPlaces, Nat.add_sub_cancel]
      ring
    rw [hunits]
    refine Nat.mul_le_mul_right _ (le_roundEven_of_le hpos ?_)
    rw [← hunits, Nat.pow_add]
    exact Nat.mul_le_mul_right den (Nat.mul_le_mul_right _ hm)
  obtain ⟨hlower, hupper⟩ := roundEven_bounds (m * 2 ^ e * den) quantaPerUnit hpos
  rw [Nat.add_mul, Nat.one_mul, Nat.mul_assoc 2] at hlower
  rw [Nat.mul_assoc 2] at hupper
  refine nearestMagnitude_eq_of_close hden hbegins ?_ ?_ ?_
  · have hends : m * 2 ^ e * den + den * 2 ^ e ≤ 2 ^ (53 + e) * den := by
      calc m * 2 ^ e * den + den * 2 ^ e = (m + 1) * 2 ^ e * den := by ring
        _ ≤ 2 ^ 53 * 2 ^ e * den :=
            Nat.mul_le_mul_right den (Nat.mul_le_mul_right _ hm')
        _ = 2 ^ (53 + e) * den := by rw [Nat.pow_add]
    omega
  · omega
  · omega

/-! ## Settled values -/

namespace Binary64

variable {places : Nat} {v r : Binary64}

/-- The value nearest to what is written of a value to places. -/
def toPlaces (places : Nat) : Binary64 → Binary64
  | .finite negative ordinal =>
    ofQuotient negative
      (roundEven (magnitudeOf ordinal * 10 ^ places) quantaPerUnit * quantaPerUnit) (10 ^ places)
  | x => x

/-- A value in the binade in which values reach `2 ^ 52` units of the last place. -/
def IsNearCutoff (places : Nat) (x : Binary64) : Prop :=
  2 ^ cutoffExponent places * quantaPerUnit ≤ x.magnitude ∧
    x.magnitude < 2 ^ (cutoffExponent places + 1) * quantaPerUnit

/-- A value that is nearest to what is written of it, rounded once more. -/
def IsSettled (places : Nat) (x : Binary64) : Prop := (x.roundTo places).toPlaces places = x

instance (places : Nat) (x : Binary64) : Decidable (x.IsNearCutoff places) :=
  inferInstanceAs (Decidable (_ ∧ _))

instance (places : Nat) (x : Binary64) : Decidable (x.IsSettled places) :=
  inferInstanceAs (Decidable (_ = _))

/-- Only finite values are rounded to finite ones. -/
theorem isFinite_of_isFinite_roundTo (h : places ≤ 6)
    (hfinite : (v.roundTo places).isFinite = true) : v.isFinite = true := by
  obtain ⟨factor, hpower, -⟩ := exists_power_ten h
  cases v with
  | nan => exact hfinite
  | infinite negative =>
    have hscaled : ((infinite negative).mul (finite false factor)).isFinite = false := by
      show (if factor.val = 0 then nan else infinite (negative != false)).isFinite = false
      split <;> rfl
    have hself : (infinite negative).roundTo places = infinite negative := by
      unfold roundTo
      rw [hpower]
      dsimp only
      rw [hscaled]
      rfl
    rw [hself] at hfinite
    exact hfinite
  | finite negative ordinal => rfl

/-- Rounding does not lead beyond the binade of the cut-off. -/
theorem roundTo_lt (hpos : 1 ≤ places) (h : places ≤ 6) (hfinite : v.isFinite = true)
    (hend : v.magnitude < 2 ^ (cutoffExponent places + 1) * quantaPerUnit) :
    (v.roundTo places).isFinite = true ∧
      (v.roundTo places).magnitude < 2 ^ (cutoffExponent places + 1) * quantaPerUnit := by
  obtain ⟨hlow, hhigh⟩ := cutoffExponent_bounds hpos h
  cases v with
  | nan => cases hfinite
  | infinite negative => cases hfinite
  | finite negative ordinal =>
    rw [roundTo_finite h]
    split
    · rename_i hwhole
      have hle := roundHalfUp_le_of_lt quantaPerUnit_pos hwhole
      obtain ⟨rounded, hrounded, hmagnitude⟩ := exists_ofQuotient_units
        (k := roundHalfUp (nearestMagnitude (magnitudeOf ordinal * 10 ^ places) 1) quantaPerUnit)
        (by omega) (10 ^ places) negative
      rw [hrounded]
      refine ⟨rfl, ?_⟩
      show magnitudeOf rounded < _
      rw [hmagnitude]
      exact nearestMagnitude_lt_of_le (ten_pow_pos places) hlow hhigh hle
    · exact ⟨hfinite, hend⟩

theorem isFinite_toPlaces (hpos : 1 ≤ places) (h : places ≤ 6) (hfinite : v.isFinite = true)
    (hend : v.magnitude < 2 ^ (cutoffExponent places + 1) * quantaPerUnit) :
    (v.toPlaces places).isFinite = true := by
  obtain ⟨hlow, -⟩ := cutoffExponent_bounds hpos h
  cases v with
  | nan => cases hfinite
  | infinite negative => cases hfinite
  | finite negative ordinal =>
    have hunits : roundEven (magnitudeOf ordinal * 10 ^ places) quantaPerUnit ≤
        2 ^ (cutoffExponent places + 1) * 10 ^ places := by
      refine roundEven_le_of_le quantaPerUnit_pos ?_
      calc magnitudeOf ordinal * 10 ^ places
          ≤ 2 ^ (cutoffExponent places + 1) * quantaPerUnit * 10 ^ places :=
            Nat.mul_le_mul_right _ hend.le
        _ = 2 ^ (cutoffExponent places + 1) * 10 ^ places * quantaPerUnit :=
            Nat.mul_right_comm _ _ _
    rw [Nat.pow_succ, Nat.mul_right_comm] at hunits
    obtain ⟨written, hwritten, -⟩ := exists_ofQuotient_units
      (k := roundEven (magnitudeOf ordinal * 10 ^ places) quantaPerUnit)
      (by omega) (10 ^ places) negative
    rw [toPlaces, hwritten]
    rfl

/-- Below the cut-off the value nearest to a number of units is that number of units again. -/
theorem roundTo_toPlaces_of_lt (h : places ≤ 6) {k : Nat} (hk : k < 2 ^ 53)
    (hlow : 2 ^ c * 10 ^ places < 2 ^ 52)
    (hbelow : nearestMagnitude (k * quantaPerUnit) (10 ^ places) < 2 ^ c * quantaPerUnit)
    (negative : Bool) :
    (ofQuotient negative (k * quantaPerUnit) (10 ^ places)).roundTo places =
        ofQuotient negative (k * quantaPerUnit) (10 ^ places) ∧
      (ofQuotient negative (k * quantaPerUnit) (10 ^ places)).toPlaces places =
        ofQuotient negative (k * quantaPerUnit) (10 ^ places) := by
  obtain ⟨rounded, hrounded, hmagnitude⟩ := exists_ofQuotient_units hk (10 ^ places) negative
  obtain ⟨hwritten, hscaled, hunits⟩ := units_of_nearestMagnitude (ten_pow_pos places) hlow hbelow
  rw [← hmagnitude] at hwritten hscaled hunits
  constructor
  · rw [hrounded, roundTo_finite h, if_pos hscaled, hunits, hrounded]
  · rw [hrounded, toPlaces, hwritten, hrounded]

/-- **Rounding once is enough**, but near the cut-off: a rounded value is rounded to itself, and is
nearest to what is written of it. -/
theorem roundTo_eq_self_and_toPlaces_eq_self (hpos : 1 ≤ places) (h : places ≤ 6)
    (hr : r = v.roundTo places) (hfinite : r.isFinite = true) (hnear : ¬ r.IsNearCutoff places) :
    r.roundTo places = r ∧ r.toPlaces places = r := by
  obtain ⟨hlow, hhigh⟩ := cutoffExponent_bounds hpos h
  have hv : v.isFinite = true := isFinite_of_isFinite_roundTo h (hr ▸ hfinite)
  cases v with
  | nan => cases hv
  | infinite negative => cases hv
  | finite negative ordinal =>
    rw [roundTo_finite h] at hr
    split at hr
    · -- rounded to a number of units, so below the binade
      rename_i hwhole
      generalize hunits : roundHalfUp (nearestMagnitude (magnitudeOf ordinal * 10 ^ places) 1)
        quantaPerUnit = k at hr
      have hk : k ≤ 2 ^ 52 := hunits ▸ roundHalfUp_le_of_lt quantaPerUnit_pos hwhole
      have hend := nearestMagnitude_lt_of_le (ten_pow_pos places) hlow hhigh hk
      have hbelow : nearestMagnitude (k * quantaPerUnit) (10 ^ places) <
          2 ^ cutoffExponent places * quantaPerUnit := by
        obtain ⟨rounded, hrounded, hmagnitude⟩ :=
          exists_ofQuotient_units (k := k) (by omega) (10 ^ places) negative
        by_contra hge
        rw [hr, hrounded] at hnear
        rw [← hmagnitude] at hge hend
        exact hnear ⟨Nat.le_of_not_lt hge, hend⟩
      rw [hr]
      exact roundTo_toPlaces_of_lt h (by omega) hlow hbelow negative
    · -- left as it was, so above the binade
      rename_i hwhole
      subst hr
      have hbegin :=
        le_of_cutoff_le_nearestMagnitude (ten_pow_pos places) hlow (Nat.le_of_not_lt hwhole)
      have habove : 2 ^ (cutoffExponent places + 1) * quantaPerUnit ≤ magnitudeOf ordinal := by
        by_contra hlt
        exact hnear ⟨hbegin, Nat.lt_of_not_le hlt⟩
      constructor
      · rw [roundTo_finite h, if_neg hwhole]
      · exact ofQuotient_eq_of_nearestMagnitude
          (nearestMagnitude_roundEven (ten_pow_pos places) hhigh habove) negative

theorem isSettled_of_not_isNearCutoff (hpos : 1 ≤ places) (h : places ≤ 6)
    (hr : r = v.roundTo places) (hfinite : r.isFinite = true) (hnear : ¬ r.IsNearCutoff places) :
    r.IsSettled places := by
  obtain ⟨hround, hwrite⟩ := roundTo_eq_self_and_toPlaces_eq_self hpos h hr hfinite hnear
  rw [IsSettled, hround, hwrite]

end Binary64

end Keypad
