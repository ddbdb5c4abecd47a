import Keypad.Proofs.Settings.Field
import Keypad.Proofs.Toml.Document

/-!
# A library for settings files

Settings are written and read by a TOML library.  Of such a library no more is asked than is known
of all of them.  Settings are written as one assignment for each field.  A value is written as a
text that denotes it, and a real number as a decimal that is read back as the same number, such as
the shortest of them.  A document of assignments is read field by field, with an integer accepted
where a real number is expected.

## Main definitions

* `Field.key`, `Field.written`: the key of a field, and the value that it is written as
* `Settings.document`: a document that assigns a text to each field
* `Library`, `Library.Lawful`: a library, and what is asked of it
* `Library.own`: the writer and the reader of settings files

## Main results

* `lawful_own`: the writer and the reader of settings files are lawful
* `Lawful.load_saved_eq`: what is loaded of settings that a lawful library has saved
-/

namespace Keypad

open Binary64 Toml

theorem ofInt_natCast (n : Nat) : ofInt n = ofNat n := by
  have hsign : decide ((n : Int) < 0) = false := decide_eq_false (by omega)
  rw [ofInt, hsign, Int.natAbs_natCast]
  rfl

namespace Settings

/-! ## Documents -/

namespace Field

/-- The fields in the order in which they are written. -/
def all : List Field := [taxRate, precision, grouping, scientific, theme, mode]

/-- The key that a field is written under. -/
def key : Field → Text
  | taxRate => "tax_rate".toList
  | precision => "precision".toList
  | grouping => "grouping".toList
  | scientific => "scientific".toList
  | theme => "theme".toList
  | mode => "mode".toList

/-- The value that a field is written as: decimal places are a whole number, and a theme or a mode
is its name. -/
def written (settings : Settings) : Field → Toml.Value
  | taxRate => .real settings.options.taxRate
  | precision => .integer settings.options.precision.toNat
  | grouping => .boolean settings.options.grouping
  | scientific => .boolean settings.options.scientific
  | theme => .text settings.theme.name
  | mode => .text settings.options.mode.name

end Field

/-- A document that assigns a text to each field, on a line of its own. -/
def document (text : Field → Text) : Text :=
  Field.all.flatMap fun field => field.key ++ " = ".toList ++ text field ++ ['\n']

/-- What a document of written settings holds. -/
def layer (settings : Settings) : Layer where
  taxRate := some settings.options.taxRate
  precision := some (.ofNat settings.options.precision.toNat)
  grouping := some settings.options.grouping
  scientific := some settings.options.scientific
  theme := some settings.theme.name
  mode := some settings.options.mode.name

/-! ## Libraries -/

/-- A library that settings are written and read by. -/
structure Library where
  /-- A value, as it is written on the right of an assignment. -/
  valueText : Toml.Value → Text
  /-- The document that settings are written as. -/
  write : Settings → Text
  /-- The real number that a value is taken for. -/
  real? : Toml.Value → Option Binary64
  /-- The flag that a value is taken for. -/
  flag? : Toml.Value → Option Bool
  /-- The text that a value is taken for. -/
  text? : Toml.Value → Option Text
  /-- The layer that a document is read as. -/
  read? : Text → Option Layer

namespace Library

/-- The layer of a value for each field, if all of them can be taken for what is expected. -/
def layer? (library : Library) (value : Field → Toml.Value) : Option Layer := do
  return {
    taxRate := some (← library.real? (value .taxRate))
    precision := some (← library.real? (value .precision))
    grouping := some (← library.flag? (value .grouping))
    scientific := some (← library.flag? (value .scientific))
    theme := some (← library.text? (value .theme))
    mode := some (← library.text? (value .mode)) }

/-- The file that settings are saved in. -/
def saved (library : Library) (settings : Settings) : SettingsFile :=
  .ofText (library.write settings)

/-- The settings that are loaded from a file. -/
def load (library : Library) (file : SettingsFile) (environment : Environment) :
    Except SettingsFile.Failure Settings := Settings.load library.read? file environment

/-- What is asked of a library. -/
structure Lawful (library : Library) : Prop where
  /-- Settings are written as a document of their fields. -/
  write_eq : ∀ settings,
    library.write settings = document fun field => library.valueText (field.written settings)
  /-- A real number is written as a decimal that is read back as this number, or by its name.  The
  shortest of these decimals is one. -/
  denotes_real : ∀ x, DenotesReal (library.valueText (.real x)) x
  /-- An integer is written by its digits. -/
  denotes_integer : ∀ n : Nat, n ≤ integerBound →
    Denotes (library.valueText (.integer n)) (.integer n)
  /-- A flag is written as its word. -/
  denotes_boolean : ∀ flag, Denotes (library.valueText (.boolean flag)) (.boolean flag)
  /-- Small letters are written in quotation marks. -/
  denotes_text : ∀ t : Text, (∀ c ∈ t, Text.isSmallLetter c = true) →
    Denotes (library.valueText (.text t)) (.text t)
  /-- A document is read field by field, each text as the value that it denotes. -/
  read?_document : ∀ (text : Field → Text) (value : Field → Toml.Value),
    (∀ field, Denotes (text field) (value field)) →
      library.read? (document text) = library.layer? value
  /-- An integer is accepted where a real number is expected. -/
  real?_integer : ∀ n : Nat, n ≤ integerBound → library.real? (.integer n) = some (.ofNat n)
  /-- A real number, a flag and a text are each taken for themselves. -/
  real?_real : ∀ x, library.real? (.real x) = some x
  flag?_boolean : ∀ flag, library.flag? (.boolean flag) = some flag
  text?_text : ∀ t, library.text? (.text t) = some t

theorem le_integerBound_of_byte (byte : UInt8) : byte.toNat ≤ integerBound :=
  Nat.le_trans (Nat.le_of_lt byte.toNat_lt) (by decide)

variable {library : Library}

/-- The texts that a lawful library writes for the fields denote their values. -/
theorem Lawful.denotes_written (h : library.Lawful) (settings : Settings) (field : Field) :
    Denotes (library.valueText (field.written settings)) (field.written settings) := by
  cases field with
  | taxRate => exact .real (h.denotes_real _)
  | precision => exact h.denotes_integer _ (le_integerBound_of_byte _)
  | grouping => exact h.denotes_boolean _
  | scientific => exact h.denotes_boolean _
  | theme =>
    -- all names are in small letters, so the plain form of a text is enough
    refine h.denotes_text _ (List.all_eq_true.mp ?_)
    cases settings.theme <;> rfl
  | mode =>
    refine h.denotes_text _ (List.all_eq_true.mp ?_)
    cases settings.options.mode <;> rfl

/-- **What was written is read** as the layer of the settings. -/
theorem Lawful.read?_write (h : library.Lawful) (settings : Settings) :
    library.read? (library.write settings) = some settings.layer := by
  rw [h.write_eq, h.read?_document _ _ (h.denotes_written settings), layer?]
  -- the places come back as a real number, for which an integer was written
  simp only [Field.written, h.real?_real, h.real?_integer _ (le_integerBound_of_byte _),
    h.flag?_boolean, h.text?_text]
  rfl

theorem Lawful.load_saved_eq (h : library.Lawful) (settings : Settings) :
    library.load (library.saved settings) (fun _ => none) = .ok settings.layer.toSettings := by
  have hlayer := Layer.load_ofText (h.read?_write settings)
  rw [load, saved, load_of_layer hlayer, Layer.override_of_unset]

/-! ## The writer and the reader of settings files -/

/-- A value as settings files have it; those that hold others do not occur. -/
def ownText : Toml.Value → Text
  | .real x => realText x
  | .integer n => digitsOf n.toNat
  | .boolean flag => flagText flag
  | .text t => '"' :: t ++ ['"']
  | _ => []

/-- The writer and the reader of settings files. -/
def own : Library where
  valueText := ownText
  write := fileText
  real? := Layer.realValue?
  flag? := Layer.booleanValue?
  text? := Layer.textValue?
  read? := Layer.ofText?

theorem fileText_eq (settings : Settings) :
    fileText settings = document fun field => ownText (field.written settings) := by
  rw [← List.append_nil (fileText settings)]
  simp only [fileText, List.append_assoc]
  rfl

theorem denotesReal_realText (x : Binary64) : DenotesReal (realText x) x := by
  cases x with
  | nan => exact .nan false
  | infinite negative => exact .infinite negative
  | finite negative ordinal =>
    obtain ⟨n, hreal, htext, hvalue⟩ := exists_realText (x := .finite negative ordinal) rfl
    rw [htext, ← hvalue]
    exact .decimal hreal (hvalue ▸ rfl)

/-- The lines of a document. -/
def lines (text : Field → Text) (value : Field → Toml.Value) : List Line :=
  Field.all.map fun field => ⟨field.key, text field, value field⟩

theorem ofTable?_lines (text : Field → Text) (value : Field → Toml.Value) :
    Layer.ofTable? ((lines text value).map Line.entry) = own.layer? value := by
  -- each key is found once, so the entries are those of the fields
  change (do
    return {
      taxRate := ← Layer.typed? Layer.realValue? (some (value .taxRate))
      precision := ← Layer.typed? Layer.realValue? (some (value .precision))
      grouping := ← Layer.typed? Layer.booleanValue? (some (value .grouping))
      scientific := ← Layer.typed? Layer.booleanValue? (some (value .scientific))
      theme := ← Layer.typed? Layer.textValue? (some (value .theme))
      mode := ← Layer.typed? Layer.textValue? (some (value .mode)) : Layer }) = _
  simp [Layer.typed?, layer?, own, Option.bind_map]

/-- A document of assignments is read field by field. -/
theorem ofText?_document {text : Field → Text} {value : Field → Toml.Value}
    (h : ∀ field, Denotes (text field) (value field)) :
    Layer.ofText? (document text) = own.layer? value := by
  have hlines : document text = (lines text value).flatMap Line.text := by
    rw [lines, List.flatMap_map]
    rfl
  have hkeys : ((lines text value).map Line.key).Nodup := by
    change (Field.all.map Field.key).Nodup
    decide
  have hread : ∀ line ∈ lines text value, line.IsRead := by
    intro line hline
    obtain ⟨field, -, rfl⟩ := List.mem_map.mp hline
    have hkey : field.key ≠ [] ∧ field.key.all isKeyChar = true := by cases field <;> decide
    exact ⟨hkey.1, List.all_eq_true.mp hkey.2, (h field).isWritten⟩
  rw [Layer.ofText?, hlines, parse?_lines hread hkeys, Option.bind_some, ofTable?_lines]

/-- **The writer and the reader of settings files are lawful.** -/
theorem lawful_own : own.Lawful where
  write_eq := fileText_eq
  denotes_real := denotesReal_realText
  denotes_integer _ h := .integer h
  denotes_boolean := .boolean
  denotes_text _ h := .text h
  read?_document _ _ := ofText?_document
  real?_integer n _ := congrArg some (ofInt_natCast n)
  real?_real _ := rfl
  flag?_boolean _ := rfl
  text?_text _ := rfl

/-- A settings file is loaded as the layer of the settings that it was written for. -/
theorem ofFile_fileText (settings : Settings) :
    ofFile (.ofText settings.fileText) (fun _ => none) = .ok settings.layer.toSettings :=
  lawful_own.load_saved_eq settings

end Library

end Settings

end Keypad
