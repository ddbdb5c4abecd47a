import Keypad.Binary64.Logarithm
import Keypad.Decimal.Scientific
import Keypad.Fault

/-!
# Rounding and the digit ceiling

A result is rounded to the configured places before it may stand on the display, and refused if
it is not finite or has more than twelve integer digits.

## Main definitions

* `Binary64.roundTo`: a value rounded to places, ties away from zero
* `Binary64.digitsBeforePoint`: the digits left of the point, by the computed decimal logarithm
* `Binary64.exceedsCeiling`, `Binary64.accept`: the ceiling

## Main results

* `floorLog_bounds`, `floorLog_of_not_isJustBelow`: the count is exact but for values just below a
  power of ten, where it may be one too high
* `accept_eq_ok_iff`: what is accepted is the rounded value, below the ceiling
-/

namespace Keypad

/-- The most integer digits a value may have, and the most digits that can be typed. -/
def digitCeiling : Nat := 12

namespace Binary64

/-- The number ten. -/
def ten : Binary64 := .ofNat 10

/-- The least magnitude from which on every value is whole. -/
def wholeFrom : Binary64 := .ofNat (2 ^ 52)

/-- A value rounded to decimal places, ties away from zero: scaled up by a power of ten, rounded
to a whole number and scaled down again.  A scaled value that is already whole, or not finite,
leaves the value as it is. -/
def roundTo (places : Nat) (x : Binary64) : Binary64 :=
  let factor := ten.power places
  let scaled := x.mul factor
  if !scaled.isFinite || !scaled.abs.lt wholeFrom then x
  else scaled.roundToWhole.div factor

/-! ## Counting integer digits

The digits left of the point are counted as the floor of the decimal logarithm plus one.  The
logarithm is a computed one, so just below a power of ten it may reach that power's exponent, and
then the count is one too high. -/

/-- Whether a quotient falls short of `10 ^ k` by at most one part in `2 ^ 40`.  A computed
logarithm is off by less than `2 ^ -42`, so only there can it round up to `k`. -/
def isJustBelow (k : Int) (num den : Nat) : Bool :=
  if 0 ≤ k then decide (10 ^ k.toNat * den * (2 ^ 40 - 1) ≤ num * 2 ^ 40)
  else decide (den * (2 ^ 40 - 1) ≤ num * 10 ^ (-k).toNat * 2 ^ 40)

/-- The floor of the computed decimal logarithm of a positive number of quanta. -/
def floorLog (quanta : Nat) : Int :=
  let e := decade quanta quantaPerUnit
  if isJustBelow (e + 1) quanta quantaPerUnit && !(decimalLog quanta).lt (ofInt (e + 1)) then e + 1
  else e

/-- The computed logarithm counts at most one digit too many. -/
theorem floorLog_bounds (quanta : Nat) :
    decade quanta quantaPerUnit ≤ floorLog quanta ∧
      floorLog quanta ≤ decade quanta quantaPerUnit + 1 := by
  unfold floorLog
  simp only
  split <;> constructor <;> omega

/-- Away from the next power of ten the count is exact. -/
theorem floorLog_of_not_isJustBelow {quanta : Nat}
    (h : isJustBelow (decade quanta quantaPerUnit + 1) quanta quantaPerUnit = false) :
    floorLog quanta = decade quanta quantaPerUnit := by
  simp [floorLog, h]

/-- The number of digits left of the point.  The count is a 32-bit integer: the logarithm of zero
is the least of these before one is added, that of infinity the greatest, whose successor wraps
around, and that of not-a-number is zero. -/
def digitsBeforePoint : Binary64 → Int
  | .nan => 1
  | .infinite _ => -2 ^ 31
  | .finite _ ordinal =>
    if ordinal.val = 0 then -2 ^ 31 + 1
    else floorLog (magnitudeOf ordinal) + 1

/-- Whether a value cannot be shown: it is not finite, or has too many integer digits. -/
def exceedsCeiling (x : Binary64) : Bool :=
  !x.isFinite || (!x.isZero && decide ((digitCeiling : Int) < x.digitsBeforePoint))

/-- Rounds a computed value and refuses it beyond the ceiling.  Every result passes here before
it is stored or shown. -/
def accept (places : Nat) (x : Binary64) : Except Fault Binary64 :=
  if (x.roundTo places).exceedsCeiling then .error .overflow else .ok (x.roundTo places)

theorem accept_eq_ok_iff (places : Nat) (x y : Binary64) :
    x.accept places = .ok y ↔ y = x.roundTo places ∧ y.exceedsCeiling = false := by
  unfold accept
  split
  · rename_i h
    simp only [reduceCtorEq, false_iff, not_and]
    rintro rfl
    simp [h]
  · rename_i h
    simp only [Except.ok.injEq]
    constructor
    · rintro rfl
      exact ⟨rfl, by simpa using h⟩
    · rintro ⟨rfl, _⟩
      rfl

theorem accept_eq_error_iff (places : Nat) (x : Binary64) (fault : Fault) :
    x.accept places = .error fault ↔
      fault = .overflow ∧ (x.roundTo places).exceedsCeiling = true := by
  unfold accept
  split
  · rename_i h
    simp [h, eq_comm]
  · rename_i h
    simp [h]

theorem isFinite_of_accept {places : Nat} {x y : Binary64} (h : x.accept places = .ok y) :
    y.isFinite = true := by
  have := ((accept_eq_ok_iff places x y).1 h).2
  unfold exceedsCeiling at this
  simp only [Bool.or_eq_false_iff, Bool.not_eq_false'] at this
  exact this.1

end Binary64

end Keypad
