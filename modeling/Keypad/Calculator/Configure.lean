import Keypad.Calculator.Basic

/-!
# Changing mode and options

## Main definitions

* `Calculator.switchMode`, `configure`

## Main results

* `switchMode_self`: switching to the mode in effect does nothing
-/

namespace Keypad

namespace Calculator

/-- Switches the mode and drops the computation.  Back in sequential mode a display that is no
number is replaced by zero, since it cannot be an operand.  Switching to the mode in effect does
nothing. -/
def switchMode (c : Calculator) (mode : Mode) : Calculator :=
  c.whenRunning <|
    if c.options.mode = mode then c
    else
      { c.dropComputation with
        options := { c.options with mode := mode }
        display := if mode = .sequential ∧ c.value? = none then zeroText else c.display }

/-- Applies a change of options.  A change of mode is a switch of mode; all other changes leave the
display as it is. -/
def configure (c : Calculator) (change : OptionsChange) : Calculator :=
  c.whenRunning <|
    let configured := { c with options := c.options.change { change with mode := none } }
    match change.mode with
    | some mode => configured.switchMode mode
    | none => configured

theorem switchMode_self (c : Calculator) : c.switchMode c.options.mode = c := by
  simp [switchMode, whenRunning]

end Calculator

end Keypad
