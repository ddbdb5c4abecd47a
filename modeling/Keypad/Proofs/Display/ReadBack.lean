import Keypad.Proofs.Display.Ceiling
import Keypad.Proofs.Display.ZeroSign

/-!
# Accepted values and what is read of them

An accepted value was rounded to places, and rounding it once more, writing it and reading the text
back all leave it as it is: each of these steps is off by less than half a unit of the last place,
and a number of units has one nearest value.  In one binade that fails.  There the scaled value
reaches `2 ^ 52`, from where on it is taken to be whole and the value is not rounded, although the
values of this binade are still closer to each other than to the next number of units.  With up to
three places that binade lies beyond the ceiling.

## Main results

* `readDisplay?_write_of_accept`: what is read of an accepted value
* `readDisplay?_write_accept_iff`: which accepted values agree with their display
* `readDisplay?_write_of_places_le`: all of them, with up to three places
-/

namespace Keypad

open Binary64

variable {style : Style} {v r x : Binary64}

/-- Near the cut-off a value within the ceiling is well below it. -/
theorem magnitude_lt_of_isNearCutoff {places : Nat} (hpos : 1 ≤ places) (h : places ≤ 6)
    (hceiling : x.exceedsCeiling = false) (hnear : x.IsNearCutoff places) :
    2 ^ (cutoffExponent places + 1) * quantaPerUnit ≤ 2 ^ 39 * quantaPerUnit := by
  have hall : ∀ p ≤ 6, 1 ≤ p → 10 ^ digitCeiling ≤ 2 ^ cutoffExponent p ∨
      2 ^ (cutoffExponent p + 1) ≤ 2 ^ 39 := by decide +kernel
  rcases hall places h hpos with hlarge | hsmall
  · have hbound := magnitude_lt_of_exceedsCeiling hceiling
    have := Nat.mul_le_mul_right quantaPerUnit hlarge
    have := hnear.1
    omega
  · exact Nat.mul_le_mul_right _ hsmall

/-- With up to three places no accepted value is near the cut-off. -/
theorem not_isNearCutoff_of_places_le {places : Nat} (hpos : 1 ≤ places) (h : places ≤ 3)
    (hceiling : x.exceedsCeiling = false) : ¬ x.IsNearCutoff places := by
  intro hnear
  have hall : ∀ p ≤ 3, 1 ≤ p → 10 ^ digitCeiling ≤ 2 ^ cutoffExponent p := by decide +kernel
  have hbound := magnitude_lt_of_exceedsCeiling hceiling
  have := Nat.mul_le_mul_right quantaPerUnit (hall places h hpos)
  have := hnear.1
  omega

/-- **What is read of an accepted value**: the value nearest to it, rounded once more. -/
theorem readDisplay?_write_of_accept (hpos : 1 ≤ style.places) (h : style.places ≤ 6)
    (hr : v.accept style.places = .ok r) : readDisplay? (style.write r) =
      some ((r.roundTo style.places).toPlaces style.places).dropZeroSign := by
  obtain ⟨hrounded, hceiling⟩ := (accept_eq_ok_iff _ _ _).mp hr
  have hfinite : r.isFinite = true := isFinite_of_accept hr
  by_cases hnear : r.IsNearCutoff style.places
  · have hbound := magnitude_lt_of_isNearCutoff hpos h hceiling hnear
    obtain ⟨hfinite', hend⟩ := roundTo_lt hpos h hfinite hnear.2
    refine readDisplay?_write hpos h ?_ (isFinite_toPlaces hpos h hfinite' hend)
    exact exceedsCeiling_of_magnitude_lt hfinite' (Nat.lt_of_lt_of_le hend hbound)
  · obtain ⟨hround, hwrite⟩ :=
      roundTo_eq_self_and_toPlaces_eq_self hpos h hrounded hfinite hnear
    refine readDisplay?_write hpos h ?_ ?_
    · rwa [hround]
    · rwa [hround, hwrite]

theorem isSettled_of_accept (hpos : 1 ≤ style.places) (h : style.places ≤ 6)
    (hr : v.accept style.places = .ok r) (hnear : ¬ r.IsNearCutoff style.places) :
    r.IsSettled style.places :=
  isSettled_of_not_isNearCutoff hpos h ((accept_eq_ok_iff _ _ _).mp hr).1 (isFinite_of_accept hr)
    hnear

/-- A settled value is read back, a zero without its sign. -/
theorem readDisplay?_write_of_isSettled (hpos : 1 ≤ style.places) (h : style.places ≤ 6)
    (hr : v.accept style.places = .ok r) (hsettled : r.IsSettled style.places) :
    readDisplay? (style.write r) = some r.dropZeroSign := by
  rw [readDisplay?_write_of_accept hpos h hr, hsettled]

/-- **With up to three places every accepted value is read back.** -/
theorem readDisplay?_write_of_places_le (hpos : 1 ≤ style.places) (h : style.places ≤ 3)
    (hr : v.accept style.places = .ok r) :
    readDisplay? (style.write r) = some r.dropZeroSign := by
  have hceiling := ((accept_eq_ok_iff _ _ _).mp hr).2
  have hsix : style.places ≤ 6 := by omega
  exact readDisplay?_write_of_isSettled hpos hsix hr
    (isSettled_of_accept hpos hsix hr (not_isNearCutoff_of_places_le hpos h hceiling))

/-- Values other than zero are told apart by their signs. -/
theorem eq_of_dropZeroSign_eq (hpositive : 0 < r.magnitude)
    (h : x.dropZeroSign = r.dropZeroSign) : x = r := by
  have hr : ¬ r.isZero = true := by
    intro hzero
    cases r with
    | nan => cases hzero
    | infinite negative => cases hzero
    | finite negative ordinal =>
      have hordinal : ordinal.val = 0 := by simpa [isZero] using hzero
      rw [magnitude, hordinal] at hpositive
      exact absurd hpositive (by decide)
  unfold Binary64.dropZeroSign at h
  rw [if_neg hr] at h
  split at h
  · rw [← h] at hr
    exact absurd rfl hr
  · exact h

/-- **An accepted value and its display agree**: a value that was rounded to places and is within
the ceiling is read back from its display, zero without a sign, and what is read is displayed the
same way.  In the binade in which scaled values reach `2 ^ 52` this holds only of settled values. -/
theorem readDisplay?_write_accept_iff (hpos : 1 ≤ style.places) (h : style.places ≤ 6)
    (hr : v.accept style.places = .ok r) :
    (readDisplay? (style.write r) = some r.dropZeroSign ∧
        style.write r.dropZeroSign = style.write r) ↔
      (r.IsNearCutoff style.places → r.IsSettled style.places) := by
  constructor
  · rintro ⟨hread, -⟩ hnear
    rw [readDisplay?_write_of_accept hpos h hr] at hread
    -- near the cut-off there is no zero, so no sign is dropped
    have hpositive : 0 < r.magnitude :=
      Nat.lt_of_lt_of_le (Nat.mul_pos (Nat.two_pow_pos _) quantaPerUnit_pos) hnear.1
    exact eq_of_dropZeroSign_eq hpositive (Option.some.inj hread)
  · intro hsettled
    have hself : r.IsSettled style.places := by
      by_cases hnear : r.IsNearCutoff style.places
      · exact hsettled hnear
      · exact isSettled_of_accept hpos h hr hnear
    exact ⟨readDisplay?_write_of_isSettled hpos h hr hself, write_dropZeroSign style r⟩

/-- A seventh of ten million, grouped to two places, is read back as it was accepted. -/
theorem readDisplay?_write_accept_seventh :
    let style : Style := ⟨2, true, true⟩
    let v := (ofNat 10000000).div (ofNat 7)
    let r := ofBits 0x4135CC5B6E147AE1
    1 ≤ style.places ∧ style.places ≤ 6 ∧ v.accept style.places = .ok r ∧
      style.write r = "1,428,571.43".toList ∧ readDisplay? (style.write r) = some r.dropZeroSign ∧
      style.write r.dropZeroSign = style.write r := by
  intro style v r
  have hr : v.accept style.places = .ok r := by decide +kernel
  have hnear : ¬ r.IsNearCutoff style.places := by decide +kernel
  refine ⟨by decide, by decide, hr, by decide +kernel, ?_⟩
  exact (readDisplay?_write_accept_iff (by decide) (by decide) hr).mpr fun h => absurd h hnear

/-- **The slip**: a seventh of `30067770949`, to six places, lies in the binade of the cut-off.  The
accepted value is displayed as its upper neighbour, which is displayed as the one after it. -/
theorem readDisplay?_write_accept_unsettled :
    let style : Style := ⟨6, false, false⟩
    let v := (ofNat 30067770949).div (ofNat 7)
    let r := ofBits 0x41F00068A09DB6DC
    let back := ofBits 0x41F00068A09DB6DD
    v.accept style.places = .ok r ∧ style.write r = "4295395849.857144".toList ∧
      readDisplay? (style.write r) = some back ∧ some back ≠ some r.dropZeroSign ∧
      style.write back = "4295395849.857145".toList := by
  decide +kernel

end Keypad
