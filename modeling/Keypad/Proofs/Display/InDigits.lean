import Keypad.Proofs.Display.DisplayNumber
import Keypad.Proofs.Display.ReadBack
import Keypad.Proofs.Display.Threshold

/-!
# Accepted values are written in digits

A value that was accepted is rounded once more when it is written, and it stays within the ceiling
then, whatever number of places is kept.  With no places, and with one to six of them but for the
binade of the cut-off, it is rounded to itself.  In that binade, and with more places, what is
scaled down again is far below the ceiling.  So an accepted value is never written with an exponent.

## Main results

* `Binary64.exceedsCeiling_roundTo_of_accept`: an accepted value is still within the ceiling when it
  is written
* `exists_displayNumber_of_accept`: it is written as a number in digits
* `exponent_notMem_write_of_accept`, `exponent_notMem_plain`: values without an exponent
-/

namespace Keypad

namespace Binary64

variable {places : Nat} {v r : Binary64}

/-- A whole number is rounded to itself. -/
theorem roundTo_zero_ofQuotient {k : Nat} (hk : k ≤ 2 ^ 52) (negative : Bool) :
    (ofQuotient negative (k * quantaPerUnit) 1).roundTo 0 =
      ofQuotient negative (k * quantaPerUnit) 1 := by
  obtain ⟨ordinal, hvalue, hmagnitude⟩ :=
    exists_ofQuotient_whole (k := k) (by omega) negative
  have hscaled : nearestMagnitude (k * quantaPerUnit) 1 = k * quantaPerUnit :=
    nearestMagnitude_mul (by omega)
  have hround : roundHalfUp (k * quantaPerUnit) quantaPerUnit = k :=
    roundHalfUp_mul_self k quantaPerUnit_pos
  rw [hvalue, roundTo_finite (Nat.zero_le 6), hmagnitude, Nat.pow_zero, Nat.mul_one, hscaled,
    hround, hvalue]
  split <;> rfl

/-- Without places, rounding once is enough. -/
theorem roundTo_zero_roundTo (hv : v.isFinite = true) :
    (v.roundTo 0).roundTo 0 = v.roundTo 0 := by
  cases v with
  | nan => cases hv
  | infinite negative => cases hv
  | finite negative ordinal =>
    rw [roundTo_finite (Nat.zero_le 6)]
    split
    · rename_i hwhole
      exact roundTo_zero_ofQuotient (roundHalfUp_le_of_lt quantaPerUnit_pos hwhole) negative
    · rename_i hwhole
      rw [roundTo_finite (Nat.zero_le 6), if_neg hwhole]

/-- From seven places on, what is scaled down again is below `2 ^ 39`. -/
theorem exceedsCeiling_roundTo_of_le (hplaces : 7 ≤ places) (hr : r.exceedsCeiling = false) :
    (r.roundTo places).exceedsCeiling = false := by
  have hfinite : r.isFinite = true := isFinite_of_exceedsCeiling hr
  rcases roundTo_eq_self_or places hfinite with hself | ⟨hrounded, hbound⟩
  · rwa [hself]
  · refine exceedsCeiling_of_magnitude_lt hrounded (Nat.lt_of_le_of_lt (hbound 14 ?_ ?_) ?_)
    · decide
    · omega
    · exact Nat.mul_lt_mul_of_pos_right (by decide) quantaPerUnit_pos

/-- **An accepted value is within the ceiling when it is written**, rounded once more. -/
theorem exceedsCeiling_roundTo_of_accept (hr : v.accept places = .ok r) :
    (r.roundTo places).exceedsCeiling = false := by
  obtain ⟨hrounded, hceiling⟩ := (accept_eq_ok_iff _ _ _).mp hr
  have hfinite : r.isFinite = true := isFinite_of_accept hr
  rcases Nat.eq_zero_or_pos places with rfl | hpos
  · have hv : v.isFinite = true := isFinite_of_isFinite_roundTo (Nat.zero_le 6) (hrounded ▸ hfinite)
    rwa [hrounded, roundTo_zero_roundTo hv, ← hrounded]
  rcases Nat.lt_or_ge 6 places with hmany | hfew
  · exact exceedsCeiling_roundTo_of_le hmany hceiling
  by_cases hnear : r.IsNearCutoff places
  · have hbound := magnitude_lt_of_isNearCutoff hpos hfew hceiling hnear
    obtain ⟨hfinite', hend⟩ := roundTo_lt hpos hfew hfinite hnear.2
    exact exceedsCeiling_of_magnitude_lt hfinite' (Nat.lt_of_lt_of_le hend hbound)
  · obtain ⟨hround, -⟩ := roundTo_eq_self_and_toPlaces_eq_self hpos hfew hrounded hfinite hnear
    rwa [hround]

end Binary64

/-! ## Texts without an exponent -/

variable {style : Style} {v r x : Binary64}

theorem exists_displayNumber_of_accept (hr : v.accept style.places = .ok r) :
    ∃ n : DisplayNumber, eraseSeparators (style.write r) = n.text := by
  rw [eraseSeparators_write_eq_literal (Binary64.exceedsCeiling_roundTo_of_accept hr)]
  exact exists_displayNumber (Binary64.isFinite_of_accept hr)

theorem exists_displayNumber_of_plain (places : Nat) (hx : x.isFinite = true) :
    ∃ n : DisplayNumber, (Style.plain places).write x = n.text :=
  exists_displayNumber hx

/-- The letter of an exponent is no character of a number in digits. -/
theorem DisplayNumber.exponent_notMem_text (n : DisplayNumber) : 'e' ∉ n.text :=
  fun hmem => absurd (n.isInfixChar_of_mem_text 'e' hmem) (by decide)

theorem exponent_notMem_of_eraseSeparators {t : Text} {n : DisplayNumber}
    (h : eraseSeparators t = n.text) : 'e' ∉ t := by
  intro hmem
  refine n.exponent_notMem_text ?_
  rw [← h]
  exact List.mem_filter.mpr ⟨hmem, by decide⟩

theorem exponent_notMem_write_of_accept (hr : v.accept style.places = .ok r) :
    'e' ∉ style.write r := by
  obtain ⟨n, hn⟩ := exists_displayNumber_of_accept hr
  exact exponent_notMem_of_eraseSeparators hn

theorem exponent_notMem_plain (places : Nat) (hx : x.isFinite = true) :
    'e' ∉ (Style.plain places).write x := by
  obtain ⟨n, hn⟩ := exists_displayNumber_of_plain places hx
  rw [hn]
  exact n.exponent_notMem_text

end Keypad
