import Keypad.Expression.Evaluation
import Keypad.Options
import Keypad.Tape

/-!
# The calculator

Everything a keypad calculator knows between two key presses, and the steps its operations share.

## Main definitions

* `Calculator`, `Calculator.make`
* `Calculator.stop`, `Calculator.orStop`: entering the stopped state
* `Calculator.typing`, `Calculator.textOf`

## Main results

* `orStop_ok`, `orStop_error`
-/

namespace Keypad

/-- The state of a calculator. -/
structure Calculator where
  /-- What the display shows: an entry, an expression, a result or a message. -/
  display : Text
  /-- The running result of a chain. -/
  accumulator : Option Binary64
  /-- The operator that waits for its right operand. -/
  pending : Option Operator
  /-- The right operand last applied, for repeated equals. -/
  recent : Option Binary64
  /-- Whether the next digit starts a fresh number. -/
  fresh : Bool
  /-- Why the calculator is stopped, if it is. -/
  alarm : Option Alarm
  options : Options
  memory : Option Binary64
  tape : Tape
  deriving DecidableEq, Repr

namespace Calculator

/-- The display of a calculator that shows nothing else. -/
def zeroText : Text := ['0']

/-- A calculator just switched on. -/
def make (options : Options) : Calculator where
  display := zeroText
  accumulator := none
  pending := none
  recent := none
  fresh := true
  alarm := none
  options := options
  memory := none
  tape := .empty

/-- Whether the calculator is stopped by a fault. -/
def isStopped (c : Calculator) : Bool := c.alarm.isSome

/-- The display read as a number; none for expressions and messages. -/
def value? (c : Calculator) : Option Binary64 := readDisplay? c.display

/-- The decimal places in effect. -/
def places (c : Calculator) : Nat := c.options.precision.toNat

/-- How results are written. -/
def style (c : Calculator) : Style := ⟨c.places, c.options.grouping, c.options.scientific⟩

/-- A value as this calculator writes it. -/
def textOf (c : Calculator) (x : Binary64) : Text := c.style.write x

/-- The display without separators. -/
def buffer (c : Calculator) : Text := eraseSeparators c.display

/-- Stops on a fault: its message takes the display, and the computation is dropped. -/
def stop (c : Calculator) (fault : Fault) : Calculator :=
  { c with
    display := fault.message
    accumulator := none
    pending := none
    recent := none
    fresh := true
    alarm := some fault.alarm }

/-- The outcome of a computation, a fault stopping the calculator as it was before. -/
def orStop (c : Calculator) : Except Fault Calculator → Calculator
  | .ok next => next
  | .error fault => c.stop fault

/-- An operation of a running calculator; a stopped one stays as it is. -/
def whenRunning (c : Calculator) (next : Calculator) : Calculator :=
  if c.isStopped then c else next

/-- Puts a text on the display as the entry being typed. -/
def typing (c : Calculator) (t : Text) : Calculator := { c with display := t, fresh := false }

/-- Shows zero and awaits a fresh number. -/
def awaiting (c : Calculator) : Calculator := { c with display := zeroText, fresh := true }

/-- Drops the computation and awaits a fresh number. -/
def dropComputation (c : Calculator) : Calculator :=
  { c with accumulator := none, pending := none, recent := none, fresh := true }

@[simp] theorem orStop_ok (c next : Calculator) : c.orStop (.ok next) = next := rfl

@[simp] theorem orStop_error (c : Calculator) (fault : Fault) :
    c.orStop (.error fault) = c.stop fault := rfl

theorem whenRunning_of_stopped {c : Calculator} (h : c.isStopped = true) (next : Calculator) :
    c.whenRunning next = c := if_pos h

theorem whenRunning_of_running {c : Calculator} (h : c.isStopped = false) (next : Calculator) :
    c.whenRunning next = next := by
  simp [whenRunning, h]

end Calculator

end Keypad
