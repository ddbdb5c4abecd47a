import Keypad.Proofs.Outcome
import Keypad.Settings.File

/-!
# The fields of the settings

Settings have six fields.  Each is given by a variable of its own or by the file, and comes to a
value without a look at the other fields; so a field of the settings that a file and an environment
give depends on nothing but its own entry and its own variable.

## Main definitions

* `Settings.Field`, with the `variableName` that overrides it
* `Field.found`, `Field.value`: what a layer holds of a field, and what settings do
* `Field.given`: what a layer and an environment give for a field
* `Field.settle`: the value that this comes to
* `SettingsFile.ofText`: a file with a given text

## Main results

* `found_override`, `value_toSettings`: overriding and settling go field by field
* `value_of_ofFile`: what a field of loaded settings depends on
-/

namespace Keypad

/-- A settings file with a text. -/
def SettingsFile.ofText (t : Text) : SettingsFile := .contents (String.ofList t).toUTF8

/-- The layer of a file with a text is the one that is read from this text. -/
theorem Layer.load_ofText {read? : Text → Option Layer} {t : Text} {layer : Layer}
    (h : read? t = some layer) : load read? (.ofText t) = .ok layer := by
  have hread : String.fromUTF8? (String.ofList t).toUTF8 = some (String.ofList t) :=
    dif_pos (String.ofList t).isValidUTF8
  simp only [load, SettingsFile.ofText, hread, String.toList_ofList, h]

theorem Layer.ofFile_ofText {t : Text} {layer : Layer} (h : ofText? t = some layer) :
    ofFile (.ofText t) = .ok layer := load_ofText h

/-- A layer has the expression mode exactly by one of its names. -/
theorem Layer.modeOf_eq_expression_iff {found : Option Text} :
    modeOf found = .expression ↔ ∃ t, found = some t ∧ Text.lower t ∈ Mode.expression.aliases := by
  cases found with
  | none => simp [modeOf, Settings.standard, Options.standard]
  | some t =>
    have hdisjoint : ∀ name ∈ Mode.sequential.aliases, name ∉ Mode.expression.aliases := by decide
    simp only [modeOf, Option.map_some, Mode.ofLabel, List.find?_cons, List.find?_nil,
      Option.some.injEq, exists_eq_left']
    by_cases hsequential : Text.lower t ∈ Mode.sequential.aliases
    · simp [hsequential, hdisjoint _ hsequential]
    · by_cases hexpression : Text.lower t ∈ Mode.expression.aliases
      · simp [hsequential, hexpression]
      · simp [hsequential, hexpression, Settings.standard, Options.standard]

namespace Settings

/-- A field of the settings. -/
inductive Field where
  | taxRate
  | precision
  | grouping
  | scientific
  | theme
  | mode
  deriving DecidableEq, Repr

namespace Field

/-- The variable that overrides a field. -/
def variableName : Field → String
  | taxRate => "TALLY_TAX_RATE"
  | precision => "TALLY_PRECISION"
  | grouping => "TALLY_GROUPING"
  | scientific => "TALLY_SCIENTIFIC"
  | theme => "TALLY_THEME"
  | mode => "TALLY_MODE"

/-- What a layer holds of a field, if it has it. -/
def Found : Field → Type
  | taxRate | precision => Binary64
  | grouping | scientific => Bool
  | theme | mode => Text

/-- What settings hold of a field. -/
def Value : Field → Type
  | taxRate => Binary64
  | precision => UInt8
  | grouping | scientific => Bool
  | theme => Theme
  | mode => Mode

def found (layer : Layer) : (field : Field) → Option field.Found
  | taxRate => layer.taxRate
  | precision => layer.precision
  | grouping => layer.grouping
  | scientific => layer.scientific
  | theme => layer.theme
  | mode => layer.mode

def value (settings : Settings) : (field : Field) → field.Value
  | taxRate => settings.options.taxRate
  | precision => settings.options.precision
  | grouping => settings.options.grouping
  | scientific => settings.options.scientific
  | theme => settings.theme
  | mode => settings.options.mode

/-- What a variable says of a field; a name is taken as it stands. -/
def ofVariable? : (field : Field) → Text → Option field.Found
  | taxRate | precision => Layer.numberVariable?
  | grouping | scientific => Layer.flagVariable?
  | theme | mode => some

/-- What is given for a field: by its variable, if that can be read, or else by the layer. -/
def given (layer : Layer) (environment : Environment) (field : Field) : Option field.Found :=
  ((environment field.variableName).bind field.ofVariable?).or (field.found layer)

/-- The value that a field comes to. -/
def settle : (field : Field) → Option field.Found → field.Value
  | taxRate => Layer.taxRateOf
  | precision => Layer.precisionOf
  | grouping => fun found => found.getD standard.options.grouping
  | scientific => fun found => found.getD standard.options.scientific
  | theme => fun found => (found.map Theme.ofLabel).getD standard.theme
  | mode => Layer.modeOf

variable {layer : Layer} {environment : Environment}

theorem found_override (layer : Layer) (environment : Environment) (field : Field) :
    field.found (layer.override environment) = field.given layer environment := by
  cases field with
  | theme => exact congrArg (Option.or · layer.theme) (Option.bind_fun_some _).symm
  | mode => exact congrArg (Option.or · layer.mode) (Option.bind_fun_some _).symm
  | _ => rfl

theorem value_toSettings (layer : Layer) (field : Field) :
    field.value layer.toSettings = field.settle (field.found layer) := by
  cases field <;> rfl

/-- Where the variable is not set, the layer gives the field. -/
theorem given_of_unset {field : Field} (h : environment field.variableName = none) :
    field.given layer environment = field.found layer := by
  rw [given, h, Option.bind_none, Option.none_or]

/-- Settings are the same if all their fields are. -/
theorem ext {first second : Settings} (h : ∀ field, value first field = value second field) :
    first = second := by
  obtain ⟨⟨_, _, _, _, _⟩, _⟩ := first
  obtain ⟨⟨_, _, _, _, _⟩, _⟩ := second
  simp only [mk.injEq, Options.mk.injEq]
  exact ⟨⟨h taxRate, h precision, h grouping, h scientific, h mode⟩, h theme⟩

end Field

variable {file : SettingsFile} {layer : Layer} {environment : Environment} {settings : Settings}

/-- A layer that is read from a file is overridden and settled. -/
theorem load_of_layer {read? : Text → Option Layer} (h : Layer.load read? file = .ok layer)
    (environment : Environment) :
    load read? file environment = .ok (layer.override environment).toSettings := by
  rw [load, h]
  rfl

theorem ofFile_of_layer (h : Layer.ofFile file = .ok layer) (environment : Environment) :
    ofFile file environment = .ok (layer.override environment).toSettings := load_of_layer h _

theorem ofFile_of_error {failure : SettingsFile.Failure} (h : Layer.ofFile file = .error failure)
    (environment : Environment) : ofFile file environment = .error failure :=
  congrArg (Except.map fun layer : Layer => (layer.override environment).toSettings) h

/-- **A field of loaded settings** is settled from what is given for it, and from nothing else. -/
theorem value_of_ofFile (h : Layer.ofFile file = .ok layer)
    (hsettings : ofFile file environment = .ok settings) (field : Field) :
    field.value settings = field.settle (field.given layer environment) := by
  rw [ofFile_of_layer h] at hsettings
  cases hsettings
  rw [Field.value_toSettings, Field.found_override]

/-- Two files that hold the same of a field give it the same value, in two environments that agree
on its variable. -/
theorem value_congr {file' : SettingsFile} {layer' : Layer} {environment' : Environment}
    {settings' : Settings} (h : Layer.ofFile file = .ok layer)
    (hsettings : ofFile file environment = .ok settings) (h' : Layer.ofFile file' = .ok layer')
    (hsettings' : ofFile file' environment' = .ok settings') {field : Field}
    (hfound : field.found layer' = field.found layer)
    (hvariable : environment' field.variableName = environment field.variableName) :
    field.value settings' = field.value settings := by
  rw [value_of_ofFile h hsettings, value_of_ofFile h' hsettings', Field.given, hfound, hvariable]
  rfl

end Settings

end Keypad
