import Keypad.Decimal.Basic

/-!
# Writing a value to a fixed number of places

The decimal expansion of a binary64 value is finite, so rounding it to any number of places is
exact integer arithmetic; a tie goes to the even neighbour.

## Main definitions

* `placePoint`: a whole number of units of the last place, written with its point
* `Binary64.fixed`: a value rounded and written to a number of places

## Main results

* `wholeOf_padStart`: padding changes no number
-/

namespace Keypad

/-- A run of digits with zeros in front up to a width. -/
def padStart (width : Nat) (digits : Text) : Text :=
  List.replicate (width - digits.length) '0' ++ digits

/-- A number of units of the last place, as whole part, point and `places` digits; without
places there is no point. -/
def placePoint (places n : Nat) : Text :=
  if places = 0 then digitsOf n
  else digitsOf (n / 10 ^ places) ++ '.' :: padStart places (digitsOf (n % 10 ^ places))

/-- A value to `places` places, exactly rounded, ties to even.  Every zero keeps its sign. -/
def Binary64.fixed (places : Nat) : Binary64 → Text
  | .nan => "NaN".toList
  | .infinite negative => signText negative ++ "inf".toList
  | .finite negative ordinal =>
    signText negative ++
      placePoint places (roundEven (magnitudeOf ordinal * 10 ^ places) quantaPerUnit)

theorem wholeOf_padStart (width : Nat) (digits : Text) :
    wholeOf (padStart width digits) = wholeOf digits := by
  unfold wholeOf padStart
  rw [Nat.ofDigitChars_append, Nat.ofDigitChars_replicate_zero]
  simp

theorem length_padStart (width : Nat) (digits : Text) :
    (padStart width digits).length = max width digits.length := by
  simp only [padStart, List.length_append, List.length_replicate]
  omega

end Keypad
