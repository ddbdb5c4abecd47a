import Keypad.CommandLine

/-!
# The program

The outer layer of the command line: it reads arguments, environment, settings file and input, and
prints what the library answers.
-/

namespace Keypad.Program

/-- The variables that override settings. -/
def settingsVariables : List String :=
  ["TALLY_TAX_RATE", "TALLY_PRECISION", "TALLY_GROUPING", "TALLY_SCIENTIFIC", "TALLY_MODE",
    "TALLY_THEME"]

/-- The environment, as far as it concerns settings. -/
def readEnvironment : IO Environment := do
  let found ← settingsVariables.filterMapM fun name => do
    return (← IO.getEnv name).map fun value => (name, value.toList)
  return fun name => found.lookup name

/-- The settings file used when no other is given. -/
def standardFile? : IO (Option String) := do
  let folder ← match ← IO.getEnv "XDG_CONFIG_HOME" with
    | some folder =>
      if folder.startsWith "/" then pure (some folder)
      else (← IO.getEnv "HOME").mapM fun home => pure (home ++ "/.config")
    | none => (← IO.getEnv "HOME").mapM fun home => pure (home ++ "/.config")
  return folder.map (· ++ "/tally/settings.toml")

/-- What stands at the place of a settings file. -/
def readSettings (path : Option String) : IO SettingsFile :=
  match path with
  | none => return .missing
  | some path => do
    try
      return .contents (← IO.FS.readBinFile path)
    catch
      | .noFileOrDirectory .. => return .missing
      | _ => return .unreadable

/-- One line of input with its line break, after the bytes read before; none at the end. -/
partial def readLine (stream : IO.FS.Stream) (line : List UInt8) : IO (Option (List UInt8)) := do
  let bytes ← stream.read 1
  match bytes.toList with
  | [] => return if line.isEmpty then none else some line.reverse
  | byte :: _ =>
    if byte = 10 then return some (byte :: line).reverse else readLine stream (byte :: line)

/-- Prints a text at once. -/
def printText (t : Text) : IO Unit := do
  let out ← IO.getStdout
  out.putStr (String.ofList t)
  out.flush

/-- Reports a failure; the run ends with its exit code. -/
def report (failure : CommandLine.Failure) : IO UInt32 := do
  (← IO.getStderr).putStrLn (String.ofList failure.line)
  return 1

/-- Answers lines until the input ends or a command stops. -/
partial def converseOn (stream : IO.FS.Stream) (c : Calculator) : IO UInt32 := do
  match ← readLine stream [] with
  | none => return 0
  | some line =>
    match CommandLine.answerLine c line with
    | .error failure => report failure
    | .ok (answer, next) =>
      printText answer
      match next with
      | some next => converseOn stream next
      | none => return 0

/-- A whole run on the standard streams. -/
def run (arguments : List String) : IO UInt32 := do
  let arguments := arguments.map String.toList
  let path := (CommandLine.readArguments arguments).toOption.bind (·.settings)
  let settings ← readSettings (← match path with
    | some path => pure (some (String.ofList path))
    | none => standardFile?)
  match CommandLine.start arguments (fun _ => settings) (← readEnvironment) with
  | .error failure => report failure
  | .ok (.done output) =>
    printText output
    return 0
  | .ok (.interactive c) => converseOn (← IO.getStdin) c

end Keypad.Program

def main (arguments : List String) : IO UInt32 := Keypad.Program.run arguments
