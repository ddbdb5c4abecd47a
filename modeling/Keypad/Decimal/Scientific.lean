import Keypad.Decimal.Fixed

/-!
# Writing a value with an exponent

## Main definitions

* `decade`: the exponent of the leading decimal digit of a positive quotient
* `Binary64.scientific`: a value rounded to a number of mantissa places, with a signed exponent

## Main results

* `decade_of_le`: at least one, the decade counts the digits of the whole part
-/

namespace Keypad

/-- The integer `e` with `10 ^ e ≤ num / den < 10 ^ (e + 1)`, for positive parts. -/
def decade (num den : Nat) : Int :=
  if den ≤ num then (digitLength (num / den) : Int) - 1
  else -(digitLength ((den - 1) / num) : Int)

theorem decade_of_le {num den : Nat} (h : den ≤ num) :
    decade num den = (digitLength (num / den) : Int) - 1 := if_pos h

/-- A quotient in units of `10 ^ unit`, rounded to a whole number, ties to even. -/
def roundToUnit (unit : Int) (num den : Nat) : Nat :=
  if 0 ≤ unit then roundEven num (den * 10 ^ unit.toNat)
  else roundEven (num * 10 ^ (-unit).toNat) den

/-- A whole mantissa of `places + 1` digits, with its point after the first. -/
def mantissaText (places mantissa : Nat) : Text := placePoint places mantissa

/-- The exponent of a number in scientific notation, always with its sign. -/
def exponentText (e : Int) : Text :=
  'e' :: (if e < 0 then '-' else '+') :: digitsOf e.natAbs

/-- A value with `places` digits after the point of the mantissa, exactly rounded, ties to even.
A mantissa that rounds up to ten moves into the next decade. -/
def Binary64.scientific (places : Nat) : Binary64 → Text
  | .nan => "NaN".toList
  | .infinite negative => signText negative ++ "inf".toList
  | .finite negative ordinal =>
    let m := magnitudeOf ordinal
    if m = 0 then signText negative ++ mantissaText places 0 ++ exponentText 0
    else
      let e := decade m quantaPerUnit
      let mantissa := roundToUnit (e - places) m quantaPerUnit
      if mantissa < 10 ^ (places + 1) then
        signText negative ++ mantissaText places mantissa ++ exponentText e
      else signText negative ++ mantissaText places (10 ^ places) ++ exponentText (e + 1)

end Keypad
