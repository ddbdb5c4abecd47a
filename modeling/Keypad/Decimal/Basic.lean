import Keypad.Binary64.Arithmetic
import Keypad.Text.Basic

/-!
# Decimal numbers and their digits

A decimal number is a whole coefficient times a power of ten.  It is turned into the binary64
value nearest to it, in one rounding.

## Main definitions

* `Decimal`, `Decimal.toBinary64`
* `digitsOf`, `wholeOf`: a whole number as decimal digits, and back
* `digitLength`: the number of decimal digits

## Main results

* `wholeOf_digitsOf`: digits read back
-/

namespace Keypad

/-- The decimal digits of a whole number; zero is the single digit `0`. -/
def digitsOf (n : Nat) : Text := Nat.toDigits 10 n

/-- The whole number written by a run of digits. -/
def wholeOf (digits : Text) : Nat := Nat.ofDigitChars 10 digits 0

/-- The number of decimal digits of a whole number, none for zero. -/
def digitLength (n : Nat) : Nat := if n = 0 then 0 else (digitsOf n).length

theorem wholeOf_digitsOf (n : Nat) : wholeOf (digitsOf n) = n :=
  Nat.ofDigitChars_toDigits (by decide) (by decide)

/-- A minus sign for negative numbers. -/
def signText (negative : Bool) : Text := if negative then ['-'] else []

/-- The number `±coefficient · 10 ^ exponent`. -/
structure Decimal where
  negative : Bool
  coefficient : Nat
  exponent : Int
  deriving DecidableEq, Repr

namespace Decimal

/-- Powers of ten beyond this one are far outside the finite range on either side. -/
def exponentBound : Nat := 400

/-- The nearest binary64 value.  A nonzero number of at least `10 ^ 400` is infinite, and one
below `10 ^ -400` rounds to zero, whatever its digits are. -/
def toBinary64 (d : Decimal) : Binary64 :=
  if d.coefficient = 0 then .zero d.negative
  else if 0 ≤ d.exponent then
    if exponentBound ≤ d.exponent.toNat then .infinite d.negative
    else .ofQuotient d.negative (d.coefficient * 10 ^ d.exponent.toNat * quantaPerUnit) 1
  else
    let places := (-d.exponent).toNat
    if (digitsOf d.coefficient).length + exponentBound < places then .zero d.negative
    else .ofQuotient d.negative (d.coefficient * quantaPerUnit) (10 ^ places)

end Decimal

end Keypad
