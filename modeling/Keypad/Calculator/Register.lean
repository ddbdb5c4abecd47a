import Keypad.Calculator.Typing

/-!
# The memory register

## Main definitions

* `Calculator.storeMemory`, `recallMemory`, `addToMemory`, `subtractFromMemory`, `emptyMemory`
-/

namespace Keypad

namespace Calculator

/-- Stores the number on the display; anything else is not stored. -/
def storeMemory (c : Calculator) : Calculator :=
  c.whenRunning <|
    match c.value? with
    | some x => { c with memory := some x }
    | none => c

/-- Recalls the stored number: as a finished number in sequential mode, and typed into the
expression, in plain notation, in expression mode. -/
def recallMemory (c : Calculator) : Calculator :=
  c.whenRunning <|
    match c.memory with
    | none => c
    | some x =>
      match c.options.mode with
      | .sequential => { c with display := c.textOf x, fresh := true }
      | .expression => c.enter ((Style.plain c.places).write x)

/-- Adds a multiple of the number on the display to the register, an empty one counting as
zero. -/
def accumulate (c : Calculator) (factor : Binary64) : Calculator :=
  c.whenRunning <|
    match c.value? with
    | none => c
    | some current =>
      match ((c.memory.getD (.zero false)).add (factor.mul current)).accept c.places with
      | .ok total => { c with memory := some total }
      | .error fault => c.stop fault

/-- Adds the number on the display to the register. -/
def addToMemory (c : Calculator) : Calculator := c.accumulate .one

/-- Subtracts the number on the display from the register. -/
def subtractFromMemory (c : Calculator) : Calculator := c.accumulate Binary64.one.neg

/-- Empties the register. -/
def emptyMemory (c : Calculator) : Calculator := c.whenRunning { c with memory := none }

end Calculator

end Keypad
