import Keypad.Display.Style
import Keypad.Mode

/-!
# Options of a calculator

## Main definitions

* `Options`: the configuration a calculator is made with
* `OptionsChange`: a partial change of it

## Main results

* `change_toChange`: changing to given options gives these
-/

namespace Keypad

/-- The configuration of a calculator. -/
structure Options where
  /-- Tax as a fraction. -/
  taxRate : Binary64
  /-- Decimal places for rounding and display. -/
  precision : UInt8
  /-- Whether integer digits are grouped in threes. -/
  grouping : Bool
  /-- Whether values beyond the ceiling are written with an exponent. -/
  scientific : Bool
  mode : Mode
  deriving DecidableEq, Repr

/-- The tax rate in effect when nothing else is configured: one tenth. -/
def standardTaxRate : Binary64 := Decimal.toBinary64 ⟨false, 1, -1⟩

/-- The decimal places in effect when nothing else is configured. -/
def standardPrecision : UInt8 := 3

/-- The options of a calculator for which nothing is configured. -/
def Options.standard : Options :=
  ⟨standardTaxRate, standardPrecision, false, false, .sequential⟩

/-- A partial change of the options; an absent field stays as it is. -/
structure OptionsChange where
  taxRate : Option Binary64 := none
  precision : Option UInt8 := none
  grouping : Option Bool := none
  scientific : Option Bool := none
  mode : Option Mode := none
  deriving DecidableEq, Repr

/-- The change that sets every option. -/
def Options.toChange (options : Options) : OptionsChange :=
  ⟨options.taxRate, options.precision, options.grouping, options.scientific, options.mode⟩

/-- The options after a change. -/
def Options.change (options : Options) (change : OptionsChange) : Options where
  taxRate := change.taxRate.getD options.taxRate
  precision := change.precision.getD options.precision
  grouping := change.grouping.getD options.grouping
  scientific := change.scientific.getD options.scientific
  mode := change.mode.getD options.mode

theorem Options.change_toChange (options other : Options) :
    options.change other.toChange = other := rfl

end Keypad
