import Keypad.Options

/-!
# Settings

The persisted configuration: the options of a calculator and the colour theme of a front-end.  It
is assembled from a *layer*, in which every field may be missing or out of range.

## Main definitions

* `Theme`, `Settings`, `Settings.standard`
* `Layer`, `Layer.toSettings`: from a layer to settings in range

## Main results

* `taxRate_toSettings`, `precision_toSettings`: what a layer without a field gives
-/

namespace Keypad

/-- The colours of a graphical front-end; stored, and not used here. -/
inductive Theme where
  | light
  | dark
  deriving DecidableEq, Repr

namespace Theme

def name : Theme → Text
  | .light => "light".toList
  | .dark => "dark".toList

/-- The theme with exactly this name. -/
def ofName? (name : Text) : Option Theme := [light, dark].find? fun theme => theme.name == name

/-- Dark by its name in any case, and light by any other. -/
def ofLabel (label : Text) : Theme := if Text.sameLetters label dark.name then .dark else .light

end Theme

/-- The configuration of a user. -/
structure Settings where
  options : Options
  theme : Theme
  deriving DecidableEq, Repr

/-- The settings in effect when nothing is configured.  Unlike a bare calculator, they group
digits. -/
def Settings.standard : Settings := ⟨{ Options.standard with grouping := true }, .light⟩

/-- One layer of configuration as it was found. -/
structure Layer where
  taxRate : Option Binary64 := none
  precision : Option Binary64 := none
  grouping : Option Bool := none
  scientific : Option Bool := none
  theme : Option Text := none
  mode : Option Text := none
  deriving DecidableEq, Repr

namespace Layer

/-- The fewest and the most decimal places that can be configured. -/
def leastPlaces : Binary64 := .ofNat 1

def mostPlaces : Binary64 := .ofNat 6

/-- A number moved into an interval; one that is missing or not finite is replaced. -/
def clamped (low high fallback : Binary64) : Option Binary64 → Binary64
  | some x => if x.isFinite then x.clamp low high else fallback
  | none => fallback

/-- The tax rate: a fraction between zero and one. -/
def taxRateOf (found : Option Binary64) : Binary64 :=
  clamped (.zero false) .one standardTaxRate found

/-- The decimal places: from one to six, rounded to a whole number, ties up. -/
def precisionOf (found : Option Binary64) : UInt8 :=
  let places := clamped leastPlaces mostPlaces (.ofNat standardPrecision.toNat) found
  UInt8.ofNat (roundHalfUp places.magnitude quantaPerUnit)

/-- The mode by a name it can be typed by, or the standard one. -/
def modeOf (found : Option Text) : Mode :=
  match found.map Mode.ofLabel with
  | some (.ok mode) => mode
  | _ => Settings.standard.options.mode

/-- The settings of a layer: missing fields take their standard value, numbers are moved into
range, and names nobody knows stand for the standard. -/
def toSettings (layer : Layer) : Settings where
  options := {
    taxRate := taxRateOf layer.taxRate
    precision := precisionOf layer.precision
    grouping := layer.grouping.getD Settings.standard.options.grouping
    scientific := layer.scientific.getD Settings.standard.options.scientific
    mode := modeOf layer.mode }
  theme := (layer.theme.map Theme.ofLabel).getD Settings.standard.theme

theorem taxRate_toSettings (layer : Layer) (h : layer.taxRate = none) :
    layer.toSettings.options.taxRate = standardTaxRate := by
  simp [toSettings, taxRateOf, h, clamped]

theorem precision_toSettings (layer : Layer) (h : layer.precision = none) :
    layer.toSettings.options.precision = standardPrecision := by
  simp only [toSettings, h]
  decide +kernel

end Layer

end Keypad
