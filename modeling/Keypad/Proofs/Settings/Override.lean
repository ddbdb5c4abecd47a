import Keypad.Proofs.Settings.Field

/-!
# Overrides that cannot be read

A number or a flag that cannot be read leaves its field as the file has it.  The name of a mode is
not read when it overrides: a name that nobody knows drops the mode of the file as well, and the
standard one stands in for both.

## Main definitions

* `Field.Misreads`: the texts that a variable should not hold
* `Environment.unset`: an environment without one of its variables

## Main results

* `ofFile_of_misread`: a misread number or flag has no effect
* `ofFile_of_unknownMode`: an unknown mode stands for the sequential one
* `ofFile_unset_iff_of_misread`: when a misread variable has no effect
-/

namespace Keypad

/-- The environment without a variable. -/
def Environment.unset (environment : Environment) (name : String) : Environment :=
  fun other => if other = name then none else environment other

theorem Environment.unset_self (environment : Environment) (name : String) :
    environment.unset name name = none := if_pos rfl

/-- A mode of no known name stands for the sequential one. -/
theorem Layer.modeOf_of_unknown {t : Text} (h : ∀ mode : Mode, Text.lower t ∉ mode.aliases) :
    modeOf (some t) = .sequential := by
  cases hmode : modeOf (some t) with
  | sequential => rfl
  | expression =>
    obtain ⟨_, heq, hmem⟩ := modeOf_eq_expression_iff.mp hmode
    exact absurd (Option.some.inj heq ▸ hmem) (h .expression)

namespace Settings

/-- The words that a flag can be given by, in lower case. -/
def flagWords : Bool → List String
  | true => ["1", "true", "yes", "on"]
  | false => ["0", "false", "no", "off"]

namespace Field

/-- Whether a text is not what the variable of a field should hold: a number, a flag word or the
name of a mode.  Blanks may stand around the first two, and letters are in any case.  Any text
names a theme. -/
def Misreads : Field → Text → Prop
  | taxRate, t | precision, t => Numeral.read? (Text.trim t) = none
  | grouping, t | scientific, t =>
    ∀ flag, ∀ word ∈ flagWords flag, word.toList ≠ Text.lower (Text.trim t)
  | theme, _ => False
  | mode, t => ∀ mode : Mode, Text.lower t ∉ mode.aliases

variable {field other : Field} {environment : Environment} {layer : Layer} {t : Text}

theorem variableName_injective (h : field.variableName = other.variableName) : field = other := by
  revert h
  cases field <;> cases other <;> decide

theorem flagVariable?_of_misread
    (h : ∀ flag, ∀ word ∈ flagWords flag, word.toList ≠ Text.lower (Text.trim t)) :
    Layer.flagVariable? t = none := by
  have hany (flag : Bool) :
      ¬ (flagWords flag).any (fun word => word.toList == Text.lower (Text.trim t)) = true := by
    simpa only [List.any_eq_true, beq_iff_eq, not_exists, not_and] using h flag
  exact (if_neg (hany true)).trans (if_neg (hany false))

/-- Of the fields that are checked, only the mode takes a text that it should not hold. -/
theorem ofVariable?_of_misread (h : field.Misreads t) (hmode : field ≠ mode) :
    field.ofVariable? t = none := by
  cases field with
  | taxRate => exact h
  | precision => exact h
  | grouping => exact flagVariable?_of_misread h
  | scientific => exact flagVariable?_of_misread h
  | theme => exact h.elim
  | mode => exact absurd rfl hmode

/-- Unsetting the variable of one field does nothing to the others. -/
theorem given_unset_of_ne (layer : Layer) (environment : Environment) (h : other ≠ field) :
    other.given layer (environment.unset field.variableName) = other.given layer environment := by
  have hname : other.variableName ≠ field.variableName := fun he => h (variableName_injective he)
  rw [given, given, Environment.unset, if_neg hname]

theorem given_unset_of_misread (hset : environment field.variableName = some t)
    (h : field.Misreads t) (hmode : field ≠ mode) (other : Field) :
    other.given layer (environment.unset field.variableName) = other.given layer environment := by
  by_cases heq : other = field
  · subst heq
    rw [given_of_unset (Environment.unset_self _ _), given, hset, Option.bind_some,
      ofVariable?_of_misread h hmode, Option.none_or]
  · exact given_unset_of_ne layer environment heq

end Field

variable {file : SettingsFile} {environment : Environment} {field : Field} {t : Text}

/-- **A misread number or flag is ignored.** -/
theorem ofFile_of_misread (hset : environment field.variableName = some t) (h : field.Misreads t)
    (hmode : field ≠ .mode) :
    ofFile file environment = ofFile file (environment.unset field.variableName) := by
  cases hlayer : Layer.ofFile file with
  | error failure => rw [ofFile_of_error hlayer, ofFile_of_error hlayer]
  | ok layer =>
    rw [ofFile_of_layer hlayer, ofFile_of_layer hlayer]
    refine congrArg Except.ok (Field.ext fun other => ?_)
    rw [Field.value_toSettings, Field.value_toSettings, Field.found_override,
      Field.found_override, Field.given_unset_of_misread hset h hmode]

/-- **An unknown mode** drops the mode of the file and stands for the sequential one. -/
theorem ofFile_of_unknownMode (hset : environment Field.mode.variableName = some t)
    (h : Field.mode.Misreads t) :
    ofFile file environment =
      (ofFile file (environment.unset Field.mode.variableName)).map fun settings =>
        { settings with options := { settings.options with mode := .sequential } } := by
  cases hlayer : Layer.ofFile file with
  | error failure =>
    rw [ofFile_of_error hlayer, ofFile_of_error hlayer]
    rfl
  | ok layer =>
    rw [ofFile_of_layer hlayer, ofFile_of_layer hlayer]
    refine congrArg Except.ok (Field.ext fun other => ?_)
    have hothers (hne : other ≠ .mode) :
        other.value (layer.override environment).toSettings =
          other.value
            (layer.override (environment.unset Field.mode.variableName)).toSettings := by
      rw [Field.value_toSettings, Field.value_toSettings, Field.found_override,
        Field.found_override, Field.given_unset_of_ne layer environment hne]
    -- the unset variable is that of the mode, so only the mode is settled from another text
    cases other with
    | mode =>
      have hgiven : Field.mode.given layer environment = some t := by
        rw [Field.given, hset]
        rfl
      rw [Field.value_toSettings, Field.found_override, hgiven]
      exact Layer.modeOf_of_unknown h
    | taxRate => exact hothers (by decide)
    | precision => exact hothers (by decide)
    | grouping => exact hothers (by decide)
    | scientific => exact hothers (by decide)
    | theme => exact hothers (by decide)

/-- **A misread variable is ignored** exactly if it is not that of the mode, or the mode would be
the sequential one without it. -/
theorem ofFile_unset_iff_of_misread (hset : environment field.variableName = some t)
    (h : field.Misreads t) :
    ofFile file environment = ofFile file (environment.unset field.variableName) ↔
      (field = .mode → ∀ settings,
        ofFile file (environment.unset field.variableName) = .ok settings →
          settings.options.mode = .sequential) := by
  by_cases hmode : field = .mode
  · subst hmode
    rw [ofFile_of_unknownMode hset h]
    cases ofFile file (environment.unset Field.mode.variableName) with
    | error failure => simp [Except.map]
    | ok settings =>
      simp only [Except.map, Except.ok.injEq, forall_eq', true_imp_iff]
      exact ⟨fun he => (congrArg (·.options.mode) he).symm, fun he => he ▸ rfl⟩
  · exact ⟨fun _ he => absurd he hmode, fun _ => ofFile_of_misread hset h hmode⟩

/-- A number in words leaves the precision of the file. -/
theorem ofFile_unset_iff_of_misread_five :
    let file := SettingsFile.ofText "precision = 5\n".toList
    let environment : Environment := fun name =>
      if name = "TALLY_PRECISION" then some "five".toList else none
    Field.precision.Misreads "five".toList ∧
      ofFile file environment = ofFile file (environment.unset "TALLY_PRECISION") := by
  intro file environment
  have hset : environment Field.precision.variableName = some "five".toList := rfl
  have hmisread : Field.precision.Misreads "five".toList := by
    change Numeral.read? (Text.trim "five".toList) = none
    decide
  exact ⟨hmisread, (ofFile_unset_iff_of_misread hset hmisread).mpr nofun⟩

/-- An unknown mode is not ignored: the expression mode of the file gives way to the sequential
one. -/
theorem unknownMode_replaces_mode :
    let file := SettingsFile.ofText "mode = \"expression\"\n".toList
    let environment : Environment := fun name =>
      if name = "TALLY_MODE" then some "rpn".toList else none
    Field.mode.Misreads "rpn".toList ∧
      (∃ settings, ofFile file (environment.unset "TALLY_MODE") = .ok settings ∧
        settings.options.mode = .expression) ∧
      ∃ settings, ofFile file environment = .ok settings ∧
        settings.options.mode = .sequential := by
  intro file environment
  have hlayer : Layer.ofFile file = .ok { mode := some "expression".toList } :=
    Layer.ofFile_ofText (by decide +kernel)
  refine ⟨?_, ⟨_, ofFile_of_layer hlayer _, ?_⟩, ⟨_, ofFile_of_layer hlayer _, ?_⟩⟩
  · intro mode
    rw [Text.lower_eq_self_of_small _ (by decide)]
    cases mode <;> decide
  · exact (by decide +kernel : Layer.modeOf (some "expression".toList) = .expression)
  · exact (by decide +kernel : Layer.modeOf (some "rpn".toList) = .sequential)

end Settings

end Keypad
