import Keypad.Calculator.Basic

/-!
# Typing and editing

The keys that edit what is being typed: a number in sequential mode, an expression in expression
mode.  In sequential mode digits beyond twelve, or beyond four after the point, are dropped.

## Main definitions

* `Calculator.extend`, `enter`: typing into an expression
* `Calculator.digit`, `point`, `changeSign`, `backspace`, `parenthesis`
* `Calculator.clearEntry`, `clearAll`
* `Calculator.pointBlocked`: where no literal can be cut off for the point key

## Main results

* `eq_buffer_of_editable?`: what can be edited is the display without its separators
* `clearEntry_of_stopped`: clearing a stopped calculator resets it
-/

namespace Keypad

/-- The most digits that can be typed after the point of a number. -/
def typedPlacesCeiling : Nat := 4

namespace Calculator

/-- The display as a literal to be continued, without separators; none when the next key starts
afresh, or on an exponent form, which cannot be edited. -/
def editable? (c : Calculator) : Option Text :=
  if c.fresh || c.display.contains 'e' then none else some c.buffer

/-- Types a digit of a number.  Digits beyond either limit are dropped, and a lone zero is
replaced. -/
def typeDigit (c : Calculator) (d : Char) : Calculator :=
  match c.editable? with
  | none => c.typing [d]
  | some t =>
    if digitCeiling ≤ Text.digitCount t then c
    else if t.contains '.' && decide (typedPlacesCeiling ≤ Text.placesTyped t) then c
    else if t = zeroText then c.typing [d]
    else c.typing (t ++ [d])

/-- Types characters after whatever the display shows, a result included. -/
def extend (c : Calculator) (t : Text) : Calculator := c.typing (c.buffer ++ t)

/-- Types characters into an expression, replacing a fresh or zero display. -/
def enter (c : Calculator) (t : Text) : Calculator :=
  if c.fresh || c.display == zeroText then c.typing t else c.extend t

/-- The digit key.  Any other character stops the calculator. -/
def digit (c : Calculator) (d : Char) : Calculator :=
  c.whenRunning <|
    if !d.isDigit then c.stop .invalidDigit
    else
      match c.options.mode with
      | .sequential => c.typeDigit d
      | .expression => c.enter [d]

/-! ## The point -/

/-- The number at the end of an expression, last character first. -/
def lastNumber (t : Text) : Text := t.reverse.takeWhile isNumeralChar

/-- Whether the character before the number at the end of a text lies outside ASCII.  The number
is cut off one byte after the start of that character, which then falls inside it. -/
def cutsCharacter (t : Text) : Bool :=
  match t.reverse.dropWhile isNumeralChar with
  | [] => false
  | c :: _ => c.utf8Size != 1

/-- Whether the point key cannot act: the number it continues cannot be cut off.  Such a display
holds a character that no key types. -/
def pointBlocked (c : Calculator) : Bool :=
  !c.isStopped && !c.fresh && c.options.mode == .expression && cutsCharacter c.buffer

/-- The point in a number, unless it has one. -/
def pointInNumber (c : Calculator) : Calculator :=
  match c.editable? with
  | none => c.typing "0.".toList
  | some t => if t.contains '.' then c else c.typing (t ++ ['.'])

/-- The point in an expression, unless the number at its end has one. -/
def pointInExpression (c : Calculator) : Calculator :=
  if cutsCharacter c.buffer || (lastNumber c.buffer).contains '.' then c
  else c.extend ['.']

/-- The point key.  Where it is blocked the calculator stays as it is. -/
def point (c : Calculator) : Calculator :=
  c.whenRunning <|
    if c.fresh then c.typing "0.".toList
    else
      match c.options.mode with
      | .sequential => c.pointInNumber
      | .expression => c.pointInExpression

/-! ## Sign, backspace and clearing -/

/-- A text with its leading minus sign dropped, or one put in front. -/
def flipSign : Text → Text
  | '-' :: rest => rest
  | t => '-' :: t

/-- The sign key.  A zero display has no sign. -/
def changeSign (c : Calculator) : Calculator :=
  c.whenRunning <| if c.display = zeroText then c else { c with display := flipSign c.display }

/-- Whether a text has at most one character besides a leading minus sign. -/
def isLastCharacter (t : Text) : Bool :=
  decide (t.length ≤ 1) || (t.head? == some '-' && decide (t.length ≤ 2))

/-- The backspace key: drops the last typed character.  A result is not edited, and dropping the
last character awaits a fresh number. -/
def backspace (c : Calculator) : Calculator :=
  c.whenRunning <|
    if c.fresh then c
    else if isLastCharacter c.buffer then c.awaiting
    else { c with display := c.buffer.dropLast }

/-- Back to a calculator just switched on, with the same options and tape. -/
def clearAll (c : Calculator) : Calculator := { make c.options with tape := c.tape }

/-- Clears the entry and keeps the computation; a stopped calculator is reset. -/
def clearEntry (c : Calculator) : Calculator := if c.isStopped then c.clearAll else c.awaiting

/-! ## Parentheses -/

/-- The parenthesis keys, which act in expression mode only. -/
def parenthesis (c : Calculator) (opening : Bool) : Calculator :=
  c.whenRunning <|
    match c.options.mode with
    | .sequential => c
    | .expression => if opening then c.enter ['('] else c.extend [')']

theorem eq_buffer_of_editable? {c : Calculator} {t : Text} (h : c.editable? = some t) :
    t = c.buffer := by
  unfold editable? at h
  split at h
  · cases h
  · exact (Option.some.inj h).symm

theorem clearEntry_of_stopped {c : Calculator} (h : c.isStopped = true) :
    c.clearEntry = c.clearAll := if_pos h

end Calculator

end Keypad
