import Keypad.Decimal.Shortest
import Keypad.Settings.Environment
import Keypad.Toml.Parser

/-!
# The settings file

Settings are kept in a TOML file.  A missing file is an empty one; a file that cannot be read, or
does not hold the fields as they should be, is an error.

## Main definitions

* `SettingsFile`; `Settings.load`: the settings of a file, by any reader of its text
* `Layer.ofText?`: the layer in a TOML document
* `Settings.ofFile`, `Settings.ofFileOrStandard`: the settings of a TOML file
* `Settings.fileText`: the file as it is written

## Main results

* `ofFileOrStandard_of_error`: a bad file gives the standard settings
-/

namespace Keypad

/-- What stands at the place of a settings file. -/
inductive SettingsFile where
  | missing
  /-- Something that cannot be read, such as a directory. -/
  | unreadable
  | contents (bytes : ByteArray)

/-- Why a settings file was not taken. -/
inductive SettingsFile.Failure where
  | unreadable
  | malformed
  deriving DecidableEq, Repr

namespace Layer

/-- The entry of a table under one of some names, `some none` if there is none; two of them are
refused. -/
def entry? (entries : Toml.Entries) (names : List String) : Option (Option Toml.Value) :=
  match names.filterMap fun name => Toml.get? entries name.toList with
  | [] => some none
  | [value] => some (some value)
  | _ => none

/-- An entry that is missing, or has a value of one kind. -/
def typed? {α : Type} (read? : Toml.Value → Option α) : Option Toml.Value → Option (Option α)
  | none => some none
  | some value => (read? value).map some

def realValue? : Toml.Value → Option Binary64
  | .integer n => some (.ofInt n)
  | .real x => some x
  | _ => none

def booleanValue? : Toml.Value → Option Bool
  | .boolean b => some b
  | _ => none

def textValue? : Toml.Value → Option Text
  | .text t => some t
  | _ => none

/-- The layer in a table.  Whole numbers may stand for real ones; other kinds are refused, and so
is the tax rate under both of its names. -/
def ofTable? (entries : Toml.Entries) : Option Layer := do
  return {
    taxRate := ← typed? realValue? (← entry? entries ["tax_rate", "taxRate"])
    precision := ← typed? realValue? (← entry? entries ["precision"])
    grouping := ← typed? booleanValue? (← entry? entries ["grouping"])
    scientific := ← typed? booleanValue? (← entry? entries ["scientific"])
    theme := ← typed? textValue? (← entry? entries ["theme"])
    mode := ← typed? textValue? (← entry? entries ["mode"]) }

/-- The layer in a document. -/
def ofText? (t : Text) : Option Layer := (Toml.parse? t).bind ofTable?

/-- The layer in a settings file, by a reader of its text. -/
def load (read? : Text → Option Layer) : SettingsFile → Except SettingsFile.Failure Layer
  | .missing => .ok {}
  | .unreadable => .error .unreadable
  | .contents bytes =>
    match String.fromUTF8? bytes with
    | none => .error .unreadable
    | some s =>
      match read? s.toList with
      | none => .error .malformed
      | some layer => .ok layer

/-- The layer in a settings file. -/
def ofFile (file : SettingsFile) : Except SettingsFile.Failure Layer := load ofText? file

end Layer

namespace Settings

/-- The settings of a file under the overrides of an environment, by a reader of the file's text. -/
def load (read? : Text → Option Layer) (file : SettingsFile) (environment : Environment) :
    Except SettingsFile.Failure Settings :=
  (Layer.load read? file).map fun layer => (layer.override environment).toSettings

/-- The settings of a file under the overrides of an environment. -/
def ofFile (file : SettingsFile) (environment : Environment) :
    Except SettingsFile.Failure Settings := load Layer.ofText? file environment

/-- The settings of a file, or the standard ones if there is anything wrong with it. -/
def ofFileOrStandard (file : SettingsFile) (environment : Environment) : Settings :=
  match ofFile file environment with
  | .ok settings => settings
  | .error _ => standard

/-! ## Writing -/

/-- A real number in TOML: its shortest digits without an exponent, and always with a point. -/
def realText : Binary64 → Text
  | .nan => "nan".toList
  | .infinite negative => signText negative ++ "inf".toList
  | .finite negative ordinal =>
    let t := (Binary64.finite negative ordinal).shortest.positional
    if t.contains '.' then t else t ++ ".0".toList

def flagText (b : Bool) : Text := if b then "true".toList else "false".toList

/-- One line of a settings file. -/
def fileLine (key : String) (value : Text) : Text := key.toList ++ " = ".toList ++ value ++ ['\n']

/-- Settings as a file. -/
def fileText (settings : Settings) : Text :=
  fileLine "tax_rate" (realText settings.options.taxRate) ++
  fileLine "precision" (digitsOf settings.options.precision.toNat) ++
  fileLine "grouping" (flagText settings.options.grouping) ++
  fileLine "scientific" (flagText settings.options.scientific) ++
  fileLine "theme" ('"' :: settings.theme.name ++ ['"']) ++
  fileLine "mode" ('"' :: settings.options.mode.name ++ ['"'])

theorem ofFileOrStandard_of_error {file : SettingsFile} {environment : Environment}
    {e : SettingsFile.Failure} (h : ofFile file environment = .error e) :
    ofFileOrStandard file environment = standard := by
  simp [ofFileOrStandard, h]

end Settings

end Keypad
