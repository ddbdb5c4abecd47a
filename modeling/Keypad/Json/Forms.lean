import Keypad.Calculator.Basic
import Keypad.Json.Parser
import Keypad.Settings.Basic

/-!
# JSON forms

How calculators, options and settings are stored as JSON.  A record may also be read from the list
of its fields, a choice without content from a record of its name and null, and unknown fields are
ignored.

## Main definitions

* `Calculator.toJson`, `Calculator.ofJson?`, and the same for what a calculator is made of
* `Settings.ofStored`: settings as a browser keeps them

## Main results

* `ofStored_of_malformed`: a text that is no JSON counts as nothing stored
-/

namespace Keypad

namespace Json

/-- A text as JSON. -/
def ofText (t : Text) : Json := .text (some t)

def ofReal (x : Binary64) : Json := .number (.real x)

def ofByte (n : UInt8) : Json := .number (.integer n.toNat)

/-- An optional value, none being null. -/
def ofOption {α : Type} (write : α → Json) : Option α → Json
  | none => .null
  | some a => write a

/-- A record with fixed field names. -/
def ofFields (fields : List (String × Json)) : Json :=
  .record (fields.map fun field => (some field.1.toList, field.2))

/-- The fields of a record by one name each. -/
def fields (names : List String) (short : Bool) (j : Json) : Option (List (Option Json)) :=
  members? (names.map fun name => [name.toList]) short j

end Json

/-! ## Choices -/

def Operator.toJson (op : Operator) : Json := Json.ofText [op.symbol]

def Operator.ofJson? (j : Json) : Option Operator :=
  match j.choice? with
  | some [symbol] => ofSymbol? symbol
  | _ => none

def Mode.toJson (mode : Mode) : Json := Json.ofText mode.name

def Mode.ofJson? (j : Json) : Option Mode := j.choice?.bind ofName?

def Theme.toJson (theme : Theme) : Json := Json.ofText theme.name

def Theme.ofJson? (j : Json) : Option Theme := j.choice?.bind ofName?

def FaultCode.toJson (code : FaultCode) : Json := Json.ofText code.name

def FaultCode.ofJson? (j : Json) : Option FaultCode := j.choice?.bind ofName?

/-- A token: a parenthesis by its name, a number or operator as a record of its kind. -/
def Token.toJson : Token → Json
  | .number x => Json.ofFields [("Number", Json.ofReal x)]
  | .operator op => Json.ofFields [("Operator", op.toJson)]
  | .opening => Json.ofText "LeftParen".toList
  | .closing => Json.ofText "RightParen".toList

def Token.ofJson? (j : Json) : Option Token :=
  match j.choice? with
  | some name =>
    if name = "LeftParen".toList then some .opening
    else if name = "RightParen".toList then some .closing
    else none
  | none =>
    match j with
    | .record [(some kind, content)] =>
      if kind = "Number".toList then content.real?.map .number
      else if kind = "Operator".toList then (Operator.ofJson? content).map .operator
      else none
    | _ => none

/-! ## Records -/

def Alarm.toJson (alarm : Alarm) : Json :=
  Json.ofFields [("code", alarm.code.toJson), ("message", Json.ofText alarm.message)]

def Alarm.ofJson? (j : Json) : Option Alarm :=
  match Json.fields ["code", "message"] false j with
  | some [code, message] => do
    return ⟨← Json.required? FaultCode.ofJson? code, ← Json.required? Json.text? message⟩
  | _ => none

def Entry.toJson (entry : Entry) : Json :=
  Json.ofFields [("expression", Json.ofText entry.expression),
    ("result", Json.ofText entry.result)]

def Entry.ofJson? (j : Json) : Option Entry :=
  match Json.fields ["expression", "result"] false j with
  | some [expression, result] => do
    return ⟨← Json.required? Json.text? expression, ← Json.required? Json.text? result⟩
  | _ => none

/-- A tape is the list of its entries. -/
def Tape.toJson (tape : Tape) : Json := .list (tape.entries.map Entry.toJson)

def Tape.ofJson? (j : Json) : Option Tape := do
  return ⟨← (← j.list?).mapM Entry.ofJson?⟩

def Options.toJson (options : Options) : Json :=
  Json.ofFields [("taxRate", Json.ofReal options.taxRate),
    ("precision", Json.ofByte options.precision),
    ("grouping", .boolean options.grouping), ("scientific", .boolean options.scientific),
    ("mode", options.mode.toJson)]

/-- Options need all of their fields. -/
def Options.ofJson? (j : Json) : Option Options :=
  match Json.fields ["taxRate", "precision", "grouping", "scientific", "mode"] false j with
  | some [taxRate, precision, grouping, scientific, mode] => do
    return {
      taxRate := ← Json.required? Json.real? taxRate
      precision := ← Json.required? Json.byte? precision
      grouping := ← Json.required? Json.boolean? grouping
      scientific := ← Json.required? Json.boolean? scientific
      mode := ← Json.required? Mode.ofJson? mode }
  | _ => none

def OptionsChange.toJson (change : OptionsChange) : Json :=
  Json.ofFields [("taxRate", Json.ofOption Json.ofReal change.taxRate),
    ("precision", Json.ofOption Json.ofByte change.precision),
    ("grouping", Json.ofOption .boolean change.grouping),
    ("scientific", Json.ofOption .boolean change.scientific),
    ("mode", Json.ofOption Mode.toJson change.mode)]

/-- A change may lack any field. -/
def OptionsChange.ofJson? (j : Json) : Option OptionsChange :=
  match Json.fields ["taxRate", "precision", "grouping", "scientific", "mode"] true j with
  | some [taxRate, precision, grouping, scientific, mode] => do
    return {
      taxRate := ← Json.optional? Json.real? taxRate
      precision := ← Json.optional? Json.byte? precision
      grouping := ← Json.optional? Json.boolean? grouping
      scientific := ← Json.optional? Json.boolean? scientific
      mode := ← Json.optional? Mode.ofJson? mode }
  | _ => none

/-- The fields of a stored calculator. -/
def Calculator.fieldNames : List String :=
  ["displayValue", "accumulator", "pendingOperator", "recentOperand", "newInput", "error",
    "taxRate", "precision", "grouping", "scientific", "memoryValue", "history", "mode"]

def Calculator.toJson (c : Calculator) : Json :=
  Json.ofFields (fieldNames.zip [Json.ofText c.display, Json.ofOption Json.ofReal c.accumulator,
    Json.ofOption Operator.toJson c.pending, Json.ofOption Json.ofReal c.recent,
    .boolean c.fresh, Json.ofOption Alarm.toJson c.alarm, Json.ofReal c.options.taxRate,
    Json.ofByte c.options.precision, .boolean c.options.grouping,
    .boolean c.options.scientific, Json.ofOption Json.ofReal c.memory, c.tape.toJson,
    c.options.mode.toJson])

/-- A stored calculator is taken as it is, in whatever state. -/
def Calculator.ofJson? (j : Json) : Option Calculator :=
  match Json.fields fieldNames false j with
  | some [display, accumulator, pending, recent, fresh, alarm, taxRate, precision, grouping,
      scientific, memory, tape, mode] => do
    return {
      display := ← Json.required? Json.text? display
      accumulator := ← Json.optional? Json.real? accumulator
      pending := ← Json.optional? Operator.ofJson? pending
      recent := ← Json.optional? Json.real? recent
      fresh := ← Json.required? Json.boolean? fresh
      alarm := ← Json.optional? Alarm.ofJson? alarm
      options := {
        taxRate := ← Json.required? Json.real? taxRate
        precision := ← Json.required? Json.byte? precision
        grouping := ← Json.required? Json.boolean? grouping
        scientific := ← Json.required? Json.boolean? scientific
        mode := ← Json.required? Mode.ofJson? mode }
      memory := ← Json.optional? Json.real? memory
      tape := ← Json.required? Tape.ofJson? tape }
  | _ => none

/-! ## Settings -/

def Settings.toJson (settings : Settings) : Json :=
  Json.ofFields [("tax_rate", Json.ofReal settings.options.taxRate),
    ("precision", Json.ofByte settings.options.precision),
    ("grouping", .boolean settings.options.grouping),
    ("scientific", .boolean settings.options.scientific), ("theme", settings.theme.toJson),
    ("mode", settings.options.mode.toJson)]

/-- Settings as they were written, not brought into range. -/
def Settings.ofJson? (j : Json) : Option Settings :=
  match Json.fields ["tax_rate", "precision", "grouping", "scientific", "theme", "mode"]
      false j with
  | some [taxRate, precision, grouping, scientific, theme, mode] => do
    return {
      options := {
        taxRate := ← Json.required? Json.real? taxRate
        precision := ← Json.required? Json.byte? precision
        grouping := ← Json.required? Json.boolean? grouping
        scientific := ← Json.required? Json.boolean? scientific
        mode := ← Json.required? Mode.ofJson? mode }
      theme := ← Json.required? Theme.ofJson? theme }
  | _ => none

/-- A layer in JSON, where the tax rate may go by either of its names. -/
def Layer.ofJson? (j : Json) : Option Layer :=
  let names := [["tax_rate", "taxRate"], ["precision"], ["grouping"], ["scientific"], ["theme"],
    ["mode"]]
  match Json.members? (names.map fun alternatives => alternatives.map String.toList) true j with
  | some [taxRate, precision, grouping, scientific, theme, mode] => do
    return {
      taxRate := ← Json.optional? Json.real? taxRate
      precision := ← Json.optional? Json.real? precision
      grouping := ← Json.optional? Json.boolean? grouping
      scientific := ← Json.optional? Json.boolean? scientific
      theme := ← Json.optional? Json.text? theme
      mode := ← Json.optional? Json.text? mode }
  | _ => none

/-- Settings as a browser keeps them.  Anything malformed counts as nothing stored. -/
def Settings.ofStored (t : Text) : Settings :=
  match (Json.parse? t).bind Layer.ofJson? with
  | some layer => layer.toSettings
  | none => standard

theorem Settings.ofStored_of_malformed {t : Text} (h : Json.parse? t = none) :
    ofStored t = standard := by
  simp [ofStored, h]

end Keypad
