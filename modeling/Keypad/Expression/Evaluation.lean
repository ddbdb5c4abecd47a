import Keypad.Expression.Postfix

/-!
# Evaluating an expression

Blanks are dropped, foreign characters refused, and the tokens reordered and evaluated.  The value
is neither rounded nor checked for its size.

## Main definitions

* `withoutBlanks`, `checkCharacters`, `evaluate`
-/

namespace Keypad

/-- A text without its blanks. -/
def withoutBlanks (t : Text) : Text := t.filter fun c => !Text.isBlank c

/-- Refuses the first character that no expression may hold. -/
def checkCharacters (t : Text) : Except Fault Unit :=
  match t.find? fun c => !isInfixChar c with
  | some found => .error (.invalidCharacter found)
  | none => .ok ()

/-- The value of an infix expression. -/
def evaluate (source : Text) : Except Fault Binary64 := do
  let t := withoutBlanks source
  checkCharacters t
  match ← Token.ofText t with
  | [] => .error .emptyExpression
  | tokens => postfixValue (← postfixOrder tokens)

end Keypad
