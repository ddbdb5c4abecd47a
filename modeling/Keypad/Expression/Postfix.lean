import Keypad.Expression.Token

/-!
# Postfix order

Infix tokens are brought into postfix order over a stack of waiting operators and open
parentheses: an operator first releases the waiting operators that bind at least as tightly, a
closing parenthesis releases all up to its partner.

## Main definitions

* `postfixOrder`: infix tokens in postfix order, unless their parentheses do not match
* `postfixValue`: the value of tokens in postfix order
-/

namespace Keypad

/-- What waits on the stack while tokens are reordered. -/
inductive Waiting where
  | operator (op : Operator)
  | opening
  deriving DecidableEq, Repr

namespace Waiting

/-- The operators released before `op` may wait, and the stack below them. -/
def release (op : Operator) : List Waiting → List Token × List Waiting
  | .operator top :: stack =>
    if top.precedence < op.precedence then ([], .operator top :: stack)
    else
      let released := release op stack
      (.operator top :: released.1, released.2)
  | stack => ([], stack)

/-- The operators released by a closing parenthesis, and the stack below its partner; `none` if
it has none. -/
def close? : List Waiting → Option (List Token × List Waiting)
  | [] => none
  | .opening :: stack => some ([], stack)
  | .operator op :: stack =>
    (close? stack).map fun released => (.operator op :: released.1, released.2)

/-- The operators released at the end; `none` if a parenthesis is still open. -/
def drain? : List Waiting → Option (List Token)
  | [] => some []
  | .opening :: _ => none
  | .operator op :: stack => (drain? stack).map (.operator op :: ·)

/-- The postfix order of the remaining tokens over a stack. -/
def arrange? : (stack : List Waiting) → List Token → Option (List Token)
  | stack, [] => drain? stack
  | stack, .number x :: rest => (arrange? stack rest).map (.number x :: ·)
  | stack, .operator op :: rest =>
    let released := release op stack
    (arrange? (.operator op :: released.2) rest).map (released.1 ++ ·)
  | stack, .opening :: rest => arrange? (.opening :: stack) rest
  | stack, .closing :: rest =>
    match close? stack with
    | none => none
    | some released => (arrange? released.2 rest).map (released.1 ++ ·)

end Waiting

/-- Infix tokens in postfix order; parentheses that do not match are a fault. -/
def postfixOrder (tokens : List Token) : Except Fault (List Token) :=
  match Waiting.arrange? [] tokens with
  | some postfixed => .ok postfixed
  | none => .error .malformed

/-- The value of the remaining tokens in postfix order over a stack of operands.  Exactly one
operand must be left at the end. -/
def valueOver : (stack : List Binary64) → List Token → Except Fault Binary64
  | [x], [] => .ok x
  | _, [] => .error .malformed
  | stack, .number x :: rest => valueOver (x :: stack) rest
  | right :: left :: stack, .operator op :: rest =>
    match op.apply left right with
    | .error fault => .error fault
    | .ok x => valueOver (x :: stack) rest
  | _, _ => .error .malformed

/-- The value of tokens in postfix order. -/
def postfixValue (tokens : List Token) : Except Fault Binary64 := valueOver [] tokens

end Keypad
