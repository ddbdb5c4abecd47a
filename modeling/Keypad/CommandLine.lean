import Keypad.Session
import Keypad.Settings.File

/-!
# The command line

The arguments choose a settings file, a mode and possibly one line of keys.  With keys, their
answer is printed; without, the lines of the input are answered one by one.

## Main definitions

* `CommandLine.Arguments`, `CommandLine.readArguments`
* `CommandLine.start`: what the arguments ask for
* `CommandLine.answerLine`: the answer to one line of input
* `CommandLine.run`: a whole run

## Main results

* `readArguments_nil`: no arguments ask for nothing
-/

namespace Keypad

namespace CommandLine

/-- What stops a run. -/
inductive Failure where
  | missingValue (argument : Text)
  | unknownArgument (argument : Text)
  | unreadableLabel (error : LabelError)
  | unreadableInput
  deriving DecidableEq, Repr

/-- The message of a failure. -/
def Failure.message : Failure → Text
  | .missingValue argument => "Missing value for ".toList ++ argument
  | .unknownArgument argument =>
    "Unknown argument: '".toList ++ argument ++ "'. Try --help".toList
  | .unreadableLabel error => error.message
  | .unreadableInput => "Failed to read input: stream did not contain valid UTF-8".toList

/-- A message as it is written to the error output. -/
def Failure.line (failure : Failure) : Text := "tally: ".toList ++ failure.message

/-- The parsed arguments. -/
structure Arguments where
  settings : Option Text := none
  mode : Option Mode := none
  keys : Option Text := none
  help : Bool := false
  deriving DecidableEq, Repr

/-- Reads the arguments from the first on, after those read before; the last of several values
counts. -/
def readAfter (parsed : Arguments) : List Text → Except Failure Arguments
  | [] => .ok parsed
  | argument :: rest =>
    let is (long short : String) : Bool := argument == long.toList || argument == short.toList
    if is "--settings" "-s" then
      match rest with
      | [] => .error (.missingValue argument)
      | value :: rest => readAfter { parsed with settings := some value } rest
    else if is "--mode" "-m" then
      match rest with
      | [] => .error (.missingValue argument)
      | value :: rest =>
        match Mode.ofLabel value with
        | .error e => .error (.unreadableLabel e)
        | .ok mode => readAfter { parsed with mode := some mode } rest
    else if is "--keys" "-k" then
      match rest with
      | [] => .error (.missingValue argument)
      | value :: rest => readAfter { parsed with keys := some value } rest
    else if is "--help" "-h" then readAfter { parsed with help := true } rest
    else .error (.unknownArgument argument)

/-- Reads all arguments. -/
def readArguments (arguments : List Text) : Except Failure Arguments := readAfter {} arguments

@[simp] theorem readArguments_nil : readArguments [] = .ok {} := rfl

/-- The help text. -/
def helpLines : List String := [
  "Tally - keypad calculator",
  "",
  "Usage: tally [OPTIONS]",
  "",
  "Options:",
  "  -s, --settings <PATH>   Settings file (default: platform config dir)",
  "  -m, --mode <MODE>       sequential | expression (overrides settings)",
  "  -k, --keys <KEYS>       Run one line of keys and print the display",
  "  -h, --help              Show this help message",
  "",
  "Keys: 0-9 . + - * / = % +/- BS CE C MS MR M+ M- MC TAX+ TAX- ( )",
  "      MODE:sequential MODE:expression",
  "Commands: HISTORY, QUIT"]

/-- Lines as they are printed. -/
def asLines (lines : List Text) : Text := lines.flatMap fun line => line ++ ['\n']

/-- What the arguments ask for. -/
inductive Start where
  /-- Print a text and be done. -/
  | done (output : Text)
  /-- Answer the lines of the input on this calculator. -/
  | interactive (c : Calculator)

/-- The calculator that settings and arguments configure. -/
def calculator (parsed : Arguments) (settings : Settings) : Calculator :=
  .make { settings.options with mode := parsed.mode.getD settings.options.mode }

/-- What is printed for the keys given as an argument. -/
def answerKeys (c : Calculator) (keys : Text) : Text :=
  match (Session.respond c keys).1 with
  | .print lines => asLines lines
  | .quit => []

/-- Starts a run, given the settings file for each path and for none. -/
def start (arguments : List Text) (file : Option Text → SettingsFile)
    (environment : Environment) : Except Failure Start := do
  let parsed ← readArguments arguments
  if parsed.help then return .done (asLines (helpLines.map String.toList))
  else
    let c := calculator parsed (Settings.ofFileOrStandard (file parsed.settings) environment)
    match parsed.keys with
    | some keys => return .done (answerKeys c keys)
    | none => return .interactive c

/-! ## Lines of input -/

/-- A line without the line break that ends it. -/
def withoutBreak (line : List UInt8) : List UInt8 :=
  match line.reverse with
  | 10 :: 13 :: rest => rest.reverse
  | 10 :: rest => rest.reverse
  | _ => line

/-- The lines of an input, each with its line break; `line` is the one being read, last byte
first. -/
def linesFrom (line : List UInt8) : List UInt8 → List (List UInt8)
  | [] => if line.isEmpty then [] else [line.reverse]
  | byte :: rest =>
    if byte = 10 then (byte :: line).reverse :: linesFrom [] rest
    else linesFrom (byte :: line) rest

/-- The answer to a line of input: what is printed and the calculator to go on with, none after
the command to stop. -/
def answerLine (c : Calculator) (line : List UInt8) :
    Except Failure (Text × Option Calculator) :=
  match String.fromUTF8? ⟨(withoutBreak line).toArray⟩ with
  | none => .error .unreadableInput
  | some s =>
    match Session.respond c s.toList with
    | (.print lines, next) => .ok (asLines lines, some next)
    | (.quit, _) => .ok ([], none)

/-- What a run leaves behind. -/
structure Report where
  exitCode : Nat
  output : Text
  errors : List Text
  deriving DecidableEq, Repr

/-- Answers the lines of an input after what was printed before. -/
def converse (output : Text) (c : Calculator) : List (List UInt8) → Report
  | [] => ⟨0, output, []⟩
  | line :: rest =>
    match answerLine c line with
    | .error failure => ⟨1, output, [failure.line]⟩
    | .ok (answer, some next) => converse (output ++ answer) next rest
    | .ok (answer, none) => ⟨0, output ++ answer, []⟩

/-- A whole run on a given input. -/
def run (arguments : List Text) (file : Option Text → SettingsFile)
    (environment : Environment) (input : List UInt8) : Report :=
  match start arguments file environment with
  | .error failure => ⟨1, [], [failure.line]⟩
  | .ok (.done output) => ⟨0, output, []⟩
  | .ok (.interactive c) => converse [] c (linesFrom [] input)

end CommandLine

end Keypad
