import Keypad.Decimal.Numeral
import Keypad.Display.Grouping
import Keypad.Display.Rounding

/-!
# Writing values on the display and reading them back

A value is rounded, written to the configured places, and trimmed of the zeros that end its
fraction; it may then be grouped.  Beyond the ceiling it may be written with an exponent instead.

## Main definitions

* `Style`, `Style.write`: how values are written
* `readDisplay?`: the value of a display text
* `Text.placesTyped`: the length of a fraction

## Main results

* `isFinite_of_readDisplay?`: only finite values are read
-/

namespace Keypad

/-- How a value is written. -/
structure Style where
  /-- Decimal places kept. -/
  places : Nat
  /-- Whether the integer part is grouped in threes. -/
  grouping : Bool
  /-- Whether values beyond the ceiling are written with an exponent. -/
  scientific : Bool
  deriving DecidableEq, Repr

/-- Fixed places without separators. -/
def Style.plain (places : Nat) : Style := ⟨places, false, false⟩

/-- A literal whose value is zero has no sign, and an empty one is zero. -/
def dropZeroSign (t : Text) : Text := if t = [] ∨ t = ['-', '0'] then ['0'] else t

/-- Drops the zeros that end a fraction, and then a bare point; a literal without a point keeps
its zeros. -/
def dropFractionZeros (t : Text) : Text :=
  if '.' ∈ t then dropZeroSign (Text.trimEndBy (· == '.') (Text.trimEndBy (· == '0') t))
  else dropZeroSign t

/-- Writes a value: rounded, then with an exponent if that is wanted beyond the ceiling, else to
fixed places, trimmed, and grouped if that is wanted. -/
def Style.write (style : Style) (x : Binary64) : Text :=
  let rounded := x.roundTo style.places
  if style.scientific && rounded.isFinite && !rounded.isZero &&
      decide ((digitCeiling : Int) < rounded.digitsBeforePoint) then
    rounded.scientific (style.places - 1)
  else
    let literal := dropFractionZeros (rounded.fixed style.places)
    if style.grouping then groupInteger literal else literal

/-- The value of a display text: blanks around it and separators inside are ignored, and anything
that is not a finite number has none. -/
def readDisplay? (t : Text) : Option Binary64 :=
  (Numeral.read? (eraseSeparators (Text.trim t))).filter Binary64.isFinite

/-- The length of the fraction in a literal, in bytes; none without a point. -/
def Text.placesTyped (t : Text) : Nat :=
  match Text.splitAt? '.' t with
  | some (_, places) => Text.byteCount places
  | none => 0

theorem isFinite_of_readDisplay? {t : Text} {x : Binary64} (h : readDisplay? t = some x) :
    x.isFinite = true := by
  unfold readDisplay? at h
  exact (Option.filter_eq_some_iff.1 h).2

end Keypad
