import Keypad.Proofs.Calculator.TypedNumber
import Keypad.Proofs.Display.CutoffRounding
import Keypad.Proofs.Display.InDigits
import Keypad.Proofs.Display.ShortestText
import Mathlib.Tactic.MkIffOfInductiveProp

/-!
# How typed numbers are rounded

A typed number is read as the nearest value, and that is rounded when it becomes a result and once
more when it is written.  With fewer places than were typed this leads to the decimal number rounded
as it stands, but for ties that are scaled to less than themselves.  With as many places the number
stays as it was typed below the cut-off of rounding; from there on the value read has to be close
enough to it.

## Main definitions

* `TypedNumber.units`: a typed number rounded to places, a tie away from zero
* `TypedNumber.RoundsAsTyped`: the conditions under which that is what is displayed

## Main results

* `TypedNumber.roundsAsTyped_of_le`: below the cut-off, no number with few enough places is changed
* `TypedNumber.accept_value`: a typed number is accepted
* `TypedNumber.isShortestText_literal_iff`: the numbers that are displayed as they should be rounded
-/

namespace Keypad

variable {places : Nat}

namespace Binary64

/-- Rounding to places, in magnitudes. -/
theorem exists_roundTo (h : places ≤ 6) (negative : Bool) (ordinal : Fin ordinalCount) :
    ∃ rounded : Fin ordinalCount,
      (finite negative ordinal).roundTo places = finite negative rounded ∧
        magnitudeOf rounded = placedMagnitude places (magnitudeOf ordinal) := by
  rw [roundTo_finite h]
  unfold placedMagnitude
  split
  · rename_i hwhole
    have hk := roundHalfUp_le_of_lt quantaPerUnit_pos hwhole
    exact exists_ofQuotient_units (Nat.lt_of_le_of_lt hk (by decide)) _ negative
  · exact ⟨ordinal, rfl, rfl⟩

end Binary64

namespace TypedNumber

variable (n : TypedNumber)

/-- The number as it stands on the display. -/
def toDisplay : DisplayNumber where
  negative := false
  whole := n.whole
  places? := n.places?
  whole_ne_nil := n.whole_ne_nil
  whole_digits := n.whole_digits
  places_digits := n.places_digits

/-- The digits of the number without its point, as a whole number. -/
def coefficient : Nat := wholeOf n.toDisplay.digits

/-- The number of places that were typed. -/
def decimals : Nat := n.toDisplay.decimals

/-- The number rounded to places, a tie away from zero, in units of the last place. -/
def units (places : Nat) : Nat := roundHalfUp (n.coefficient * 10 ^ places) (10 ^ n.decimals)

/-- The magnitude of the value read, scaled to units of the last place, as it is computed. -/
def scaled (places : Nat) : Nat := (n.value.mul (Binary64.ten.power places)).magnitude

/-- What rounding to places has to meet with to display the number as it should be rounded. -/
@[mk_iff]
structure RoundsAsTyped (places : Nat) : Prop where
  /-- A tie is not scaled to less than itself. -/
  tie : IsTie (n.coefficient * 10 ^ places) (10 ^ n.decimals) →
    2 * n.units places * quantaPerUnit ≤ 2 * n.scaled places + quantaPerUnit
  /-- From the binade of the cut-off on, the value read is written as the number was typed. -/
  written : 2 ^ cutoffExponent places * quantaPerUnit ≤ n.value.magnitude →
    roundEven (n.value.magnitude * 10 ^ places) quantaPerUnit = n.units places
  /-- As long as it is rounded there, it exceeds the number typed by a quarter of a unit at most. -/
  rounded : 2 ^ cutoffExponent places * quantaPerUnit ≤ n.value.magnitude →
    n.scaled places < 2 ^ 52 * quantaPerUnit →
      4 * (n.value.magnitude * 10 ^ places) ≤ (4 * n.units places + 1) * quantaPerUnit

instance : Decidable (n.RoundsAsTyped places) := decidable_of_iff' _ (n.roundsAsTyped_iff places)

/-! ## The value of a typed number -/

theorem coefficient_lt : n.coefficient < 10 ^ digitCeiling := by
  have hfew : n.toDisplay.digits.length ≤ digitCeiling :=
    (Nat.le_of_eq List.length_append).trans n.digits_few
  exact Nat.lt_of_lt_of_le (wholeOf_lt n.toDisplay.isDigit_of_mem_digits)
    (Nat.pow_le_pow_right (by decide) hfew)

theorem decimals_le : n.decimals ≤ 4 := n.places_short

theorem exists_value : ∃ ordinal : Fin ordinalCount, n.value = .finite false ordinal ∧
    magnitudeOf ordinal =
      nearestMagnitude (n.coefficient * quantaPerUnit) (10 ^ n.decimals) := by
  have hvalue : n.toDisplay.value = n.value :=
    n.toDisplay.value_eq_of_readDisplay? n.readDisplay?_text
  have hsmall : 10 ^ digitCeiling ≤ 2 ^ 53 := by decide
  rw [← hvalue]
  exact Binary64.exists_ofQuotient_units (n.coefficient_lt.trans_le hsmall) _ false

theorem magnitude_value : n.value.magnitude =
    nearestMagnitude (n.coefficient * quantaPerUnit) (10 ^ n.decimals) := by
  obtain ⟨ordinal, hvalue, hmagnitude⟩ := n.exists_value
  rw [hvalue]
  exact hmagnitude

/-- A typed number is no larger than a number without places that has as many digits. -/
theorem magnitude_value_le {k : Nat} (hk : k < 2 ^ 53)
    (h : n.coefficient ≤ k * 10 ^ n.decimals) : n.value.magnitude ≤ k * quantaPerUnit := by
  rw [magnitude_value]
  refine nearestMagnitude_le (ten_pow_pos _) hk ?_
  calc n.coefficient * quantaPerUnit ≤ k * 10 ^ n.decimals * quantaPerUnit :=
        Nat.mul_le_mul_right _ h
    _ = k * quantaPerUnit * 10 ^ n.decimals := Nat.mul_right_comm _ _ _

theorem magnitude_value_le_units : n.value.magnitude ≤ (10 ^ digitCeiling - 1) * quantaPerUnit := by
  refine n.magnitude_value_le (by decide) ?_
  have hlt := n.coefficient_lt
  calc n.coefficient ≤ 10 ^ digitCeiling - 1 := by omega
    _ ≤ (10 ^ digitCeiling - 1) * 10 ^ n.decimals := Nat.le_mul_of_pos_right _ (ten_pow_pos _)

section Places

variable (h : places ≤ 6)

include h

theorem scaled_eq : n.scaled places = nearestMagnitude (n.value.magnitude * 10 ^ places) 1 := by
  have hbound : n.value.magnitude * 10 ^ places < 2 ^ (60 + quantumPlaces) := by
    have hpower : 10 ^ places ≤ 10 ^ 6 := Nat.pow_le_pow_right (by decide) h
    have hsmall : (10 ^ digitCeiling - 1) * 10 ^ 6 < 2 ^ 60 := by decide
    calc n.value.magnitude * 10 ^ places
        ≤ (10 ^ digitCeiling - 1) * quantaPerUnit * 10 ^ 6 :=
          Nat.mul_le_mul n.magnitude_value_le_units hpower
      _ = (10 ^ digitCeiling - 1) * 10 ^ 6 * quantaPerUnit := Nat.mul_right_comm _ _ _
      _ < 2 ^ 60 * quantaPerUnit := Nat.mul_lt_mul_of_pos_right hsmall quantaPerUnit_pos
      _ = 2 ^ (60 + quantumPlaces) := (two_pow_add_quantumPlaces 60).symm
  have hplaces : 7 + quantumPlaces + 2 < 2047 := by decide
  have hexponent : 53 + (7 + quantumPlaces) = 60 + quantumPlaces := by omega
  unfold scaled
  obtain ⟨ordinal, hvalue, -⟩ := n.exists_value
  rw [hvalue] at hbound ⊢
  rw [Binary64.mul_power_ten h]
  refine Binary64.magnitude_ofQuotient (isFinite_ofQuotient false hplaces ?_)
  rw [Nat.div_one, hexponent]
  exact hbound

end Places

/-! ## Fewer places than were typed -/

section Fewer

variable (hlt : places < n.decimals)

include hlt

/-- A number with more places than are kept has one digit of the ceiling less before them. -/
theorem magnitude_value_le_of_lt :
    n.value.magnitude ≤ 10 ^ (digitCeiling - 1 - places) * quantaPerUnit := by
  have hfew := n.decimals_le
  have hceiling : digitCeiling = 12 := rfl
  refine n.magnitude_value_le ?_ ?_
  · calc 10 ^ (digitCeiling - 1 - places) ≤ 10 ^ digitCeiling :=
          Nat.pow_le_pow_right (by decide) (by omega)
      _ < 2 ^ 53 := by decide
  · calc n.coefficient ≤ 10 ^ digitCeiling := n.coefficient_lt.le
      _ ≤ 10 ^ (digitCeiling - 1 - places + n.decimals) :=
          Nat.pow_le_pow_right (by decide) (by omega)
      _ = 10 ^ (digitCeiling - 1 - places) * 10 ^ n.decimals := Nat.pow_add _ _ _

/-- It is rounded and written as a number of units. -/
theorem roundEven_placedMagnitude_of_lt (hpos : 1 ≤ places) :
    n.value.magnitude < 2 ^ cutoffExponent places * quantaPerUnit ∧
      roundEven (placedMagnitude places (placedMagnitude places n.value.magnitude) *
        10 ^ places) quantaPerUnit = roundHalfUp (n.scaled places) quantaPerUnit := by
  have hfew := n.decimals_le
  have hceiling : digitCeiling = 12 := rfl
  obtain ⟨hlow, hhigh⟩ := cutoffExponent_bounds hpos (by omega : places ≤ 6)
  have hvalue := n.magnitude_value_le_of_lt hlt
  -- scaled, eleven digits are far below the cut-off
  have hdigits : 10 ^ (digitCeiling - 1 - places) * 10 ^ places = 10 ^ (digitCeiling - 1) := by
    rw [← Nat.pow_add, Nat.sub_add_cancel (by omega)]
  have hwhole : 10 ^ (digitCeiling - 1 - places) < 2 ^ cutoffExponent places := by
    refine Nat.lt_of_mul_lt_mul_right (a := 10 ^ places) ?_
    rw [hdigits]
    exact Nat.lt_trans (by decide) (half_cutoff_lt hhigh)
  have hcutoff : 2 ^ cutoffExponent places < 2 ^ 52 :=
    Nat.lt_of_le_of_lt (Nat.le_mul_of_pos_right _ (ten_pow_pos places)) hlow
  generalize 10 ^ (digitCeiling - 1 - places) = whole at *
  have hunits : whole * quantaPerUnit < 2 ^ cutoffExponent places * quantaPerUnit :=
    Nat.mul_lt_mul_of_pos_right hwhole quantaPerUnit_pos
  have hscaled : n.scaled places ≤ 10 ^ (digitCeiling - 1) * quantaPerUnit := by
    rw [n.scaled_eq (by omega)]
    refine nearestMagnitude_le Nat.one_pos (by decide) ?_
    rw [Nat.mul_one, ← hdigits, Nat.mul_right_comm]
    exact Nat.mul_le_mul_right _ hvalue
  have hfirst := roundHalfUp_le_of_le quantaPerUnit_pos hscaled
  have hbelow : nearestMagnitude (roundHalfUp (n.scaled places) quantaPerUnit * quantaPerUnit)
      (10 ^ places) < 2 ^ cutoffExponent places * quantaPerUnit := by
    refine Nat.lt_of_le_of_lt (nearestMagnitude_le (ten_pow_pos places) (by omega) ?_) hunits
    rw [Nat.mul_right_comm, hdigits]
    exact Nat.mul_le_mul_right _ hfirst
  obtain ⟨hself, hwritten⟩ := placedMagnitude_of_lt hlow hbelow
  have hbefore := hvalue.trans_lt hunits
  refine ⟨hbefore, ?_⟩
  have hrounded : placedMagnitude places n.value.magnitude =
      nearestMagnitude (roundHalfUp (n.scaled places) quantaPerUnit * quantaPerUnit)
        (10 ^ places) := by
    rw [n.scaled_eq (by omega)]
    refine if_pos ?_
    by_contra hge
    exact absurd hbefore (Nat.not_lt.mpr
      (le_of_cutoff_le_nearestMagnitude (ten_pow_pos places) hlow (Nat.le_of_not_lt hge)))
  rw [hrounded, hself, hwritten]

/-- **Fewer places than were typed**: only a tie is in question. -/
theorem roundEven_eq_units_iff_of_lt (hpos : 1 ≤ places) :
    roundEven (placedMagnitude places (placedMagnitude places n.value.magnitude) * 10 ^ places)
        quantaPerUnit = n.units places ↔ n.RoundsAsTyped places := by
  have hfew := n.decimals_le
  obtain ⟨hbefore, hshown⟩ := n.roundEven_placedMagnitude_of_lt hlt hpos
  have hscaled : n.scaled places =
      scaledMagnitude n.coefficient (10 ^ n.decimals) (10 ^ places) := by
    rw [n.scaled_eq (by omega), magnitude_value]
    rfl
  have hcoefficient : n.coefficient < 2 ^ 40 := n.coefficient_lt.trans (by decide)
  have hden : 10 ^ n.decimals ≤ 10 ^ 4 := Nat.pow_le_pow_right (by decide) hfew
  have hscale : 10 ^ places ≤ 10 ^ 3 := Nat.pow_le_pow_right (by decide) (by omega)
  have hties := roundHalfUp_scaledMagnitude_iff hcoefficient (ten_pow_pos n.decimals)
    (hden.trans (by decide)) (hscale.trans (by decide))
  rw [← hscaled] at hties
  rw [hshown]
  constructor
  · intro h
    exact ⟨hties.mp h, fun hge => absurd hbefore (Nat.not_lt.mpr hge),
      fun hge => absurd hbefore (Nat.not_lt.mpr hge)⟩
  · exact fun h => hties.mpr h.tie

end Fewer

/-! ## As many places as were typed -/

section Enough

variable (hle : n.decimals ≤ places)

include hle

theorem coefficient_mul_ten_pow :
    n.coefficient * 10 ^ places = n.units places * 10 ^ n.decimals ∧
      n.units places = n.coefficient * 10 ^ (places - n.decimals) := by
  have hsplit : n.coefficient * 10 ^ places =
      n.coefficient * 10 ^ (places - n.decimals) * 10 ^ n.decimals := by
    rw [Nat.mul_assoc, ← Nat.pow_add, Nat.sub_add_cancel hle]
  have hunits : n.units places = n.coefficient * 10 ^ (places - n.decimals) := by
    rw [units, hsplit, roundHalfUp_mul_self _ (ten_pow_pos _)]
  exact ⟨hunits ▸ hsplit, hunits⟩

/-- No digit is lost, so there is no tie. -/
theorem not_isTie_of_le : ¬ IsTie (n.coefficient * 10 ^ places) (10 ^ n.decimals) := by
  intro htie
  have hpos := ten_pow_pos n.decimals
  unfold IsTie at htie
  rw [(n.coefficient_mul_ten_pow hle).1, roundHalfUp_mul_self _ hpos, Nat.mul_assoc] at htie
  omega

/-- The value read is the one nearest to the number of units. -/
theorem magnitude_value_eq_units : n.value.magnitude =
    nearestMagnitude (n.units places * quantaPerUnit) (10 ^ places) := by
  have hunits : n.units places * quantaPerUnit =
      n.coefficient * quantaPerUnit * 10 ^ (places - n.decimals) := by
    rw [(n.coefficient_mul_ten_pow hle).2, Nat.mul_right_comm]
  have hden : 10 ^ places = 10 ^ n.decimals * 10 ^ (places - n.decimals) := by
    rw [← Nat.pow_add, Nat.add_sub_cancel' hle]
  rw [magnitude_value, hunits, hden, nearestMagnitude, nearestMagnitude,
    nearestOrdinal_mul_mul _ _ (ten_pow_pos _)]

/-- **As many places as were typed**: only the value read is in question. -/
theorem roundEven_eq_units_iff_of_le (hpos : 1 ≤ places) (h : places ≤ 6) :
    roundEven (placedMagnitude places (placedMagnitude places n.value.magnitude) * 10 ^ places)
        quantaPerUnit = n.units places ↔ n.RoundsAsTyped places := by
  obtain ⟨hlow, hhigh⟩ := cutoffExponent_bounds hpos h
  have hcutoff := roundEven_placedMagnitude_placedMagnitude_iff (k := n.units places) hlow hhigh
  rw [← n.magnitude_value_eq_units hle, ← n.scaled_eq h] at hcutoff
  rw [hcutoff]
  constructor
  · intro hwritten
    exact ⟨fun htie => absurd htie (n.not_isTie_of_le hle),
      fun hbegin => (hwritten hbegin).1, fun hbegin => (hwritten hbegin).2⟩
  · exact fun h hbegin => ⟨h.written hbegin, h.rounded hbegin⟩

/-- **Below the cut-off** no number with few enough places is changed. -/
theorem roundsAsTyped_of_le
    (hbelow : n.value.magnitude < 2 ^ cutoffExponent places * quantaPerUnit) :
    n.RoundsAsTyped places :=
  ⟨fun htie => absurd htie (n.not_isTie_of_le hle), fun hge => absurd hbelow (Nat.not_lt.mpr hge),
    fun hge => absurd hbelow (Nat.not_lt.mpr hge)⟩

end Enough

/-! ## What is displayed -/

section Places

variable (hpos : 1 ≤ places) (h : places ≤ 6)

include hpos h

theorem roundEven_eq_units_iff :
    roundEven (placedMagnitude places (placedMagnitude places n.value.magnitude) * 10 ^ places)
        quantaPerUnit = n.units places ↔ n.RoundsAsTyped places := by
  rcases Nat.lt_or_ge places n.decimals with hlt | hle
  · exact n.roundEven_eq_units_iff_of_lt hlt hpos
  · exact n.roundEven_eq_units_iff_of_le hle hpos h

theorem placedMagnitude_value_le :
    placedMagnitude places n.value.magnitude ≤ (10 ^ digitCeiling - 1) * quantaPerUnit := by
  obtain ⟨hlow, hhigh⟩ := cutoffExponent_bounds hpos h
  have hvalue := n.magnitude_value_le_units
  unfold placedMagnitude
  split
  · rename_i hwhole
    rcases Nat.lt_or_ge 3 places with hmany | hfew
    · -- the end of the binade of the cut-off is below the ceiling
      have hunits := roundHalfUp_le_of_lt quantaPerUnit_pos hwhole
      refine (nearestMagnitude_lt_of_le (ten_pow_pos places) hlow hhigh hunits).le.trans ?_
      refine Nat.mul_le_mul_right _ ?_
      have hpower : 10 ^ 4 ≤ 10 ^ places := Nat.pow_le_pow_right (by decide) hmany
      have hcutoff := (Nat.mul_le_mul_left (2 ^ cutoffExponent places) hpower).trans_lt hlow
      have hceiling : 10 ^ digitCeiling - 1 = 999999999999 := rfl
      rw [Nat.pow_succ, hceiling]
      omega
    · -- scaled up to 53 bits, a whole number of units is not passed
      have hpower : 10 ^ places ≤ 10 ^ 3 := Nat.pow_le_pow_right (by decide) hfew
      have hsmall : (10 ^ digitCeiling - 1) * 10 ^ places < 2 ^ 53 :=
        (Nat.mul_le_mul_left _ hpower).trans_lt (by decide)
      have hscaled : nearestMagnitude (n.value.magnitude * 10 ^ places) 1 ≤
          (10 ^ digitCeiling - 1) * 10 ^ places * quantaPerUnit := by
        refine nearestMagnitude_le Nat.one_pos hsmall ?_
        rw [Nat.mul_one, Nat.mul_right_comm]
        exact Nat.mul_le_mul_right _ hvalue
      refine nearestMagnitude_le (ten_pow_pos places) (by decide) ?_
      rw [Nat.mul_right_comm]
      exact Nat.mul_le_mul_right _ (roundHalfUp_le_of_le quantaPerUnit_pos hscaled)
  · exact hvalue

/-- **A typed number is accepted**, rounded to the places kept. -/
theorem accept_value : n.value.accept places = .ok (n.value.roundTo places) := by
  refine (Binary64.accept_eq_ok_iff _ _ _).mpr ⟨rfl, ?_⟩
  have hle := n.placedMagnitude_value_le hpos h
  obtain ⟨ordinal, hvalue, -⟩ := n.exists_value
  rw [hvalue] at hle ⊢
  obtain ⟨rounded, hrounded, hmagnitude⟩ := Binary64.exists_roundTo h false ordinal
  rw [hrounded]
  exact Binary64.exceedsCeiling_of_le_units rfl (hmagnitude.trans_le hle)

end Places

/-- **A typed number is displayed as it should be rounded** exactly under these conditions. -/
theorem isShortestText_literal_iff {style : Style} (hpos : 1 ≤ style.places)
    (h : style.places ≤ 6) :
    IsShortestText (style.literal (n.value.roundTo style.places)) (n.units style.places)
        (10 ^ style.places) ↔ n.RoundsAsTyped style.places := by
  rw [← n.roundEven_eq_units_iff hpos h, ← isShortestText_dropFractionZeros_iff]
  obtain ⟨ordinal, hvalue, -⟩ := n.exists_value
  obtain ⟨rounded, hrounded, hmagnitude⟩ := Binary64.exists_roundTo h false ordinal
  obtain ⟨again, hagain, hmagnitude'⟩ := Binary64.exists_roundTo h false rounded
  have hlast : placedMagnitude style.places
      (placedMagnitude style.places n.value.magnitude) = magnitudeOf again := by
    rw [hmagnitude', hmagnitude, hvalue]
    rfl
  rw [hlast, hvalue, Style.literal, hrounded, hagain]
  rfl

end TypedNumber

end Keypad
