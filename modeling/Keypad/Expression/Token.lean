import Keypad.Decimal.Numeral
import Keypad.Operator

/-!
# Tokens of an expression

A minus sign is an operator, except where a number is expected and a digit or point follows it
directly: there it belongs to the number.  So `2*-3` is `2 * (-3)`, while `-(2)` is two tokens
too many.

## Main definitions

* `Token`, `Token.scan`
* `isInfixChar`, `isNumeralChar`: the characters of expressions and of numbers

## Main results

* `scan_nil`, `scan_of_beginsNumber`, `scan_of_not_beginsNumber`: the first token of a text
-/

namespace Keypad

/-- One lexical unit of an expression. -/
inductive Token where
  | number (value : Binary64)
  | operator (op : Operator)
  | opening
  | closing
  deriving DecidableEq, Repr

/-- The characters of a number: digits and the point. -/
def isNumeralChar (c : Char) : Bool := c.isDigit || c == '.'

/-- The characters an expression may hold. -/
def isInfixChar (c : Char) : Bool :=
  isNumeralChar c || (Operator.ofSymbol? c).isSome || c == '(' || c == ')'

namespace Token

/-- Whether a number is expected after the previous token: at the start, after an operator and
after an opening parenthesis. -/
def expectsNumber : Option Token → Bool
  | none => true
  | some (.operator _) => true
  | some .opening => true
  | _ => false

/-- Whether a number begins with `c`, given the previous token and what follows. -/
def beginsNumber (previous : Option Token) (c : Char) (rest : Text) : Bool :=
  isNumeralChar c || (c == '-' && expectsNumber previous && (rest.head?.any isNumeralChar))

/-- The token written by a single character that begins no number. -/
def ofSymbol (c : Char) : Except Fault Token :=
  if c = '(' then .ok .opening
  else if c = ')' then .ok .closing
  else
    match Operator.ofSymbol? c with
    | some op => .ok (.operator op)
    | none => .error (.invalidCharacter c)

/-- Splits a text into tokens, after a previous one.  A number takes all the digits and points
that follow its first character. -/
def scan (previous : Option Token) : Text → Except Fault (List Token)
  | [] => .ok []
  | c :: rest =>
    if beginsNumber previous c rest then
      match Numeral.read? (c :: rest.takeWhile isNumeralChar) with
      | none => .error .malformed
      | some x =>
        (scan (some (.number x)) (rest.dropWhile isNumeralChar)).map (.number x :: ·)
    else
      match ofSymbol c with
      | .error fault => .error fault
      | .ok token => (scan (some token) rest).map (token :: ·)
termination_by t => t.length
decreasing_by
  · have := (List.dropWhile_sublist (l := rest) isNumeralChar).length_le
    simp only [List.length_cons]
    omega
  · simp

/-- The tokens of a text without blanks. -/
def ofText (t : Text) : Except Fault (List Token) := scan none t

/-! ## The first token -/

theorem scan_nil (previous : Option Token) : scan previous [] = .ok [] := by
  rw [scan]

/-- Where a number begins, it takes all the digits and points that follow. -/
theorem scan_of_beginsNumber {previous : Option Token} {c : Char} {rest : Text}
    (h : beginsNumber previous c rest = true) :
    scan previous (c :: rest) =
      match Numeral.read? (c :: rest.takeWhile isNumeralChar) with
      | none => .error .malformed
      | some x =>
        (scan (some (.number x)) (rest.dropWhile isNumeralChar)).map (.number x :: ·) := by
  rw [scan, if_pos h]

/-- Elsewhere a token is a single character. -/
theorem scan_of_not_beginsNumber {previous : Option Token} {c : Char} {rest : Text}
    (h : beginsNumber previous c rest = false) :
    scan previous (c :: rest) =
      match ofSymbol c with
      | .error fault => .error fault
      | .ok token => (scan (some token) rest).map (token :: ·) := by
  rw [scan, h]
  rfl

end Token

end Keypad
