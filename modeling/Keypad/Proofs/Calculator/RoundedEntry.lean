import Keypad.Proofs.Calculator.EitherMode
import Keypad.Proofs.Display.TypedRounding

/-!
# Typed numbers as results

A number becomes a result when zero is added to it: the sum is its value itself, which is accepted,
and written after it was rounded twice.  So the display shows the number rounded as it stands, a tie
away from zero, exactly if rounding its value leads there.

## Main results

* `chainStep_add_zero`: a typed number is accepted when zero is added to it
* `isShortestText_pressAll_iff`: the numbers that are shown as they should be rounded
* `not_isShortestText_pressAll`: a tie and a large number that are not
-/

namespace Keypad

namespace TypedNumber

theorem isDigit_zero : '0'.isDigit = true := rfl

/-- The number zero. -/
def zero : TypedNumber := .ofDigit '0' isDigit_zero

theorem value_zero : zero.value = .zero false := by decide +kernel

/-- Adding zero leaves a typed number as it is. -/
theorem add_value_zero (n : TypedNumber) : n.value.add zero.value = n.value := by
  obtain ⟨ordinal, hvalue, -⟩ := n.exists_value
  have hzero : magnitudeOf (⟨0, by decide⟩ : Fin ordinalCount) = 0 := by decide
  rw [value_zero, hvalue, Binary64.zero, Binary64.add_unsigned, hzero, Nat.add_zero,
    ← Nat.mul_one (magnitudeOf ordinal), Binary64.ofQuotient_magnitudeOf _ _ 1 Nat.one_pos]

/-- **A typed number as a result.** -/
theorem chainStep_add_zero (n : TypedNumber) {places : Nat} (hpos : 1 ≤ places) (h : places ≤ 6) :
    chainStep places n.value (.plus, zero) = .ok (n.value.roundTo places) := by
  show (n.value.add zero.value).accept places = _
  rw [n.add_value_zero, n.accept_value hpos h]

end TypedNumber

namespace Calculator

/-- Zero is added to a typed number without an alarm: the number becomes the running result, and
the display and the tape show what it was rounded to. -/
theorem pressAll_add_zero {options : Options} (hmode : options.mode = .sequential)
    (hpos : 1 ≤ options.precision.toNat) (h : options.precision.toNat ≤ 6) (n : TypedNumber) :
    (make options).pressAll (n.keys ++ [.operator .plus, .digit '0', .equals]) =
      { make options with
        display := (make options).textOf (n.value.roundTo options.precision.toNat)
        accumulator := some (n.value.roundTo options.precision.toNat)
        pending := some .plus
        recent := some TypedNumber.zero.value
        tape := ⟨[⟨(make options).chainText n.value .plus TypedNumber.zero.value,
          (make options).textOf (n.value.roundTo options.precision.toNat)⟩]⟩ } := by
  have hkeys : n.keys ++ [.operator .plus, .digit '0', .equals] = operationKeys .plus n .zero := rfl
  rw [hkeys, pressAll_operationKeys_of_sequential .plus n .zero hmode, equals_operandTyped hmode,
    n.chainStep_add_zero hpos h]

/-- Without grouping an accepted value is written as a literal. -/
theorem textOf_eq_literal {options : Options} (hgrouping : options.grouping = false)
    {v r : Binary64} (hr : v.accept options.precision.toNat = .ok r) :
    (make options).textOf r = (make options).style.literal r := by
  have hceiling := Binary64.exceedsCeiling_roundTo_of_accept hr
  calc (make options).textOf r = eraseSeparators ((make options).style.write r) :=
        (eraseSeparators_of_notMem (separator_notMem_write hgrouping r)).symm
    _ = (make options).style.literal r := eraseSeparators_write_eq_literal hceiling

/-- **Typed numbers are rounded as they stand**, a tie away from zero, exactly if rounding their
value leads there.  A number can be typed and zero added to it without an alarm, and without
grouping the display then is the shortest text of the number rounded to the places kept just if the
number is one of those. -/
theorem isShortestText_pressAll_iff (options : Options) (hmode : options.mode = .sequential)
    (hgrouping : options.grouping = false) (hpos : 1 ≤ options.precision.toNat)
    (h : options.precision.toNat ≤ 6) (n : TypedNumber) :
    let c := (make options).pressAll (n.keys ++ [.operator .plus, .digit '0', .equals])
    c.alarm = none ∧
      (IsShortestText c.display (n.units options.precision.toNat)
          (10 ^ options.precision.toNat) ↔
        n.RoundsAsTyped options.precision.toNat) := by
  dsimp only
  rw [pressAll_add_zero hmode hpos h n]
  refine ⟨rfl, ?_⟩
  dsimp only
  rw [textOf_eq_literal hgrouping (n.accept_value hpos h)]
  exact n.isShortestText_literal_iff hpos h

end Calculator

/-! ## Ties and large numbers -/

/-- A number below one. -/
def TypedNumber.ofPlaces (places : Text) (h : ∀ c ∈ places, c.isDigit = true)
    (hshort : places.length ≤ typedPlacesCeiling) : TypedNumber where
  whole := ['0']
  places? := some places
  whole_ne_nil := List.cons_ne_nil '0' []
  whole_digits := List.all_eq_true.mp rfl
  whole_of_zero _ := rfl
  places_digits := h
  places_short := hshort
  digits_few := by
    have hceiling : 1 + typedPlacesCeiling ≤ digitCeiling := by decide
    exact (Nat.add_le_add_left hshort 1).trans hceiling

/-- The number `0.0005`, which is a tie at three places. -/
def TypedNumber.smallTie : TypedNumber :=
  .ofPlaces "0005".toList (List.all_eq_true.mp rfl) (by decide)

/-- The number `0.5005`, which is scaled to less than the tie that it is at three places. -/
def TypedNumber.tie : TypedNumber :=
  .ofPlaces "5005".toList (List.all_eq_true.mp rfl) (by decide)

/-- The number `4296340250.6`, which is read as a value above the cut-off of six places. -/
def TypedNumber.aboveCutoff : TypedNumber where
  whole := "4296340250".toList
  places? := some ['6']
  whole_ne_nil := by decide
  whole_digits := List.all_eq_true.mp rfl
  whole_of_zero := by decide
  places_digits := List.all_eq_true.mp rfl
  places_short := by decide
  digits_few := by decide

namespace Calculator

/-- The tie `0.0005` is rounded to `0.001`. -/
theorem isShortestText_pressAll_iff_tie :
    Options.standard.mode = .sequential ∧ Options.standard.grouping = false ∧
      1 ≤ Options.standard.precision.toNat ∧ Options.standard.precision.toNat ≤ 6 ∧
        IsShortestText ((make .standard).pressAll
          (TypedNumber.smallTie.keys ++ [.operator .plus, .digit '0', .equals])).display
            1 (10 ^ 3) := by
  refine ⟨rfl, rfl, by decide, by decide, ?_⟩
  refine (isShortestText_pressAll_iff .standard rfl rfl (by decide) (by decide)
    TypedNumber.smallTie).2.mpr ?_
  decide +kernel

/-- The tie `0.5005` is rounded to `0.5`, and `4296340250.6` is shown with more places than it
has. -/
theorem not_isShortestText_pressAll :
    (((make .standard).pressAll
        (TypedNumber.tie.keys ++ [.operator .plus, .digit '0', .equals])).display =
          "0.5".toList ∧
      TypedNumber.tie.units 3 = 501 ∧ ¬ IsShortestText "0.5".toList 501 (10 ^ 3)) ∧
    ((make { Options.standard with precision := 6 }).pressAll
        (TypedNumber.aboveCutoff.keys ++ [.operator .plus, .digit '0', .equals])).display =
          "4296340250.600002".toList ∧
      TypedNumber.aboveCutoff.units 6 = 4296340250600000 ∧
        ¬ IsShortestText "4296340250.600002".toList 4296340250600000 (10 ^ 6) := by
  have htie : dropFractionZeros (placePoint 3 500) = "0.5".toList := by decide +kernel
  have hlarge : dropFractionZeros (placePoint 6 4296340250600002) =
      "4296340250.600002".toList := by decide +kernel
  refine ⟨⟨by decide +kernel, by decide +kernel, ?_⟩, by decide +kernel, by decide +kernel, ?_⟩
  · rw [← htie, isShortestText_dropFractionZeros_iff]
    decide
  · rw [← hlarge, isShortestText_dropFractionZeros_iff]
    decide

end Calculator

end Keypad
