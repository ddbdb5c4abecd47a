import Keypad.Decimal.Basic

/-!
# Reading a number

A numeral is an optional sign followed by `inf`, `infinity` or `nan` in any case, or by digits
with at most one point and at least one digit, and then possibly an exponent.

## Main definitions

* `Numeral.read?`: the binary64 value of a text that is a numeral and nothing else

## Main results

* `read?_nil`, `read?_point`: no digits, no number
-/

namespace Keypad

namespace Numeral

/-- A leading sign, and what follows it. -/
def splitSign : Text → Bool × Text
  | '-' :: rest => (true, rest)
  | '+' :: rest => (false, rest)
  | t => (false, t)

/-- The exponent that ends a numeral: nothing, or `e`, an optional sign and digits. -/
def exponent? : Text → Option Int
  | [] => some 0
  | e :: rest =>
    if e = 'e' ∨ e = 'E' then
      let (negative, digits) := splitSign rest
      if digits.isEmpty || !digits.all Char.isDigit then none
      else if negative then some (-(wholeOf digits : Int)) else some (wholeOf digits)
    else none

/-- The digits after a leading point, and what follows them; none without a point. -/
def fraction : Text → Text × Text
  | '.' :: rest => (rest.takeWhile Char.isDigit, rest.dropWhile Char.isDigit)
  | t => ([], t)

/-- An unsigned numeral in digits. -/
def decimal? (negative : Bool) (t : Text) : Option Decimal :=
  let whole := t.takeWhile Char.isDigit
  let (places, rest) := fraction (t.dropWhile Char.isDigit)
  if whole.isEmpty && places.isEmpty then none
  else (exponent? rest).map fun e => ⟨negative, wholeOf (whole ++ places), e - places.length⟩

/-- The value of a numeral, `none` for any other text. -/
def read? (t : Text) : Option Binary64 :=
  let (negative, unsigned) := splitSign t
  if Text.sameLetters unsigned "inf".toList || Text.sameLetters unsigned "infinity".toList then
    some (.infinite negative)
  else if Text.sameLetters unsigned "nan".toList then some .nan
  else (decimal? negative unsigned).map Decimal.toBinary64

@[simp] theorem read?_nil : read? [] = none := rfl

@[simp] theorem read?_point : read? ['.'] = none := by decide

end Numeral

end Keypad
