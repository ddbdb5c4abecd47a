import Keypad.Text.Basic

/-!
# Faults

What can go wrong in a computation, and what the display then says.  A fault stops the
calculator until it is cleared; an unreadable label never reaches it.

## Main definitions

* `Fault`, `Fault.code`, `Fault.message`
* `Alarm`: the code and message a stopped calculator holds
* `LabelError`: why a typed label names no key

## Main results

* `code_eq_of_message_eq`: the message of a fault determines its code
-/

namespace Keypad

/-- The three kinds of stop a front-end tells apart. -/
inductive FaultCode where
  | divisionByZero
  | overflow
  | invalidToken
  deriving DecidableEq, Repr

/-- The causes of a failed computation. -/
inductive Fault where
  /-- The right operand of a division is zero. -/
  | divisionByZero
  /-- A result is not finite or has too many integer digits. -/
  | overflow
  /-- A digit key delivered something other than a digit. -/
  | invalidDigit
  /-- An operator key delivered something other than an operator. -/
  | invalidOperator
  /-- Tax cannot be taken off at a rate of minus one. -/
  | invalidTaxRate
  /-- An expression holds a foreign character. -/
  | invalidCharacter (found : Char)
  /-- Unbalanced parentheses, a broken number, or operands and operators out of step. -/
  | malformed
  /-- An expression holds nothing. -/
  | emptyExpression
  deriving DecidableEq, Repr

namespace FaultCode

/-- The name of a code in stored states. -/
def name : FaultCode → Text
  | .divisionByZero => "DIV_ZERO".toList
  | .overflow => "OVERFLOW".toList
  | .invalidToken => "INVALID_TOKEN".toList

/-- The code with a given name. -/
def ofName? (name : Text) : Option FaultCode :=
  [divisionByZero, overflow, invalidToken].find? fun code => code.name == name

theorem ofName?_name (code : FaultCode) : ofName? code.name = some code := by
  cases code <;> decide

end FaultCode

namespace Fault

/-- The kind of stop a fault causes. -/
def code : Fault → FaultCode
  | .divisionByZero => .divisionByZero
  | .overflow => .overflow
  | _ => .invalidToken

/-- The text on the display of a stopped calculator. -/
def message : Fault → Text
  | .divisionByZero => "Cannot divide by zero".toList
  | .overflow => "Overflow".toList
  | .invalidDigit => "Invalid digit".toList
  | .invalidOperator => "Invalid operator".toList
  | .invalidTaxRate => "Invalid tax rate".toList
  | .invalidCharacter _ => "Invalid character".toList
  | .malformed => "Syntax error".toList
  | .emptyExpression => "Empty expression".toList

/-- The code that goes with a message. -/
def codeOfMessage (t : Text) : FaultCode :=
  if t = message .divisionByZero then .divisionByZero
  else if t = message .overflow then .overflow
  else .invalidToken

theorem codeOfMessage_message (fault : Fault) : codeOfMessage fault.message = fault.code := by
  cases fault <;> rfl

/-- The message of a fault determines its code. -/
theorem code_eq_of_message_eq {f g : Fault} (h : f.message = g.message) : f.code = g.code := by
  rw [← codeOfMessage_message f, ← codeOfMessage_message g, h]

end Fault

/-- What a stopped calculator holds until it is cleared. -/
structure Alarm where
  code : FaultCode
  message : Text
  deriving DecidableEq, Repr

/-- The alarm that a fault raises. -/
def Fault.alarm (fault : Fault) : Alarm := ⟨fault.code, fault.message⟩

/-- Why a typed label names no key. -/
inductive LabelError where
  | unknownKey (label : Text)
  | unknownMode (name : Text)
  deriving DecidableEq, Repr

/-- The message for an unreadable label. -/
def LabelError.message : LabelError → Text
  | .unknownKey label => "Unknown key: '".toList ++ label ++ "'".toList
  | .unknownMode name =>
    "Unknown mode: '".toList ++ name ++ "'. Valid options: sequential, expression".toList

end Keypad
