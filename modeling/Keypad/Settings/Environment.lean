import Keypad.Settings.Basic

/-!
# Overrides from the environment

Each field of a layer can be overridden by a variable of its own.

## Main definitions

* `Environment`, `Layer.override`

## Main results

* `override_of_unset`: without variables a layer stays as it is
-/

namespace Keypad

/-- The variables of an environment, by name. -/
abbrev Environment := String → Option Text

namespace Layer

/-- A number as the whole of a variable, blanks around it aside. -/
def numberVariable? (t : Text) : Option Binary64 := Numeral.read? (Text.trim t)

/-- A flag by one of its words, in any case and with blanks around it. -/
def flagVariable? (t : Text) : Option Bool :=
  let word := Text.lower (Text.trim t)
  if ["1", "true", "yes", "on"].any fun w => w.toList == word then some true
  else if ["0", "false", "no", "off"].any fun w => w.toList == word then some false
  else none

/-- A layer overridden field by field.  A number or flag that cannot be read leaves its field as
it is; a mode or theme replaces it whatever it says. -/
def override (layer : Layer) (environment : Environment) : Layer where
  taxRate := ((environment "TALLY_TAX_RATE").bind numberVariable?).or layer.taxRate
  precision := ((environment "TALLY_PRECISION").bind numberVariable?).or layer.precision
  grouping := ((environment "TALLY_GROUPING").bind flagVariable?).or layer.grouping
  scientific := ((environment "TALLY_SCIENTIFIC").bind flagVariable?).or layer.scientific
  theme := (environment "TALLY_THEME").or layer.theme
  mode := (environment "TALLY_MODE").or layer.mode

theorem override_of_unset (layer : Layer) : layer.override (fun _ => none) = layer := by
  simp [override]

end Layer

end Keypad
