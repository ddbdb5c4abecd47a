import Keypad.Expression.Evaluation

/-!
# The infix grammar

An expression is a sum of terms, a term a product of factors, and a factor a literal, a negated
literal or an expression in parentheses.  Operators of one level associate to the left.

## Main definitions

* `isLiteral`: digits with at most one point
* `Infix.levelOf`: sums and products
* `Infix`, `Infix.Fits`: the phrases of the grammar
* `Infix.text`, `Infix.value`: how a phrase is written, and what it is worth

## Main results

* `isLiteral_eq`: literals by the characters of numbers
* `fits_of_le`: a phrase that binds tightly fits wherever looser operators may stand
* `all_isInfixChar_text`: phrases are written in the characters of expressions
-/

namespace Keypad

/-- Digits with at most one point, and at least one digit. -/
def isLiteral (t : Text) : Bool :=
  t.all (fun c => c.isDigit || c == '.') && decide (t.count '.' ≤ 1) && t.any Char.isDigit

/-- A literal is in the characters that numbers are split off by. -/
theorem isLiteral_eq (t : Text) : isLiteral t =
    (t.all isNumeralChar && decide (t.count '.' ≤ 1) && t.any Char.isDigit) := rfl

/-- A phrase of the grammar with its parentheses. -/
inductive Infix where
  | literal (negative : Bool) (digits : Text)
  | group (inner : Infix)
  | binary (op : Operator) (left right : Infix)
  deriving DecidableEq, Repr

namespace Infix

/-- The level of expressions, which are sums of terms. -/
def loosest : Nat := 1

/-- The level of an operator in the grammar: sums are of terms, at the first level, and products are
of factors, at the second.  The precedence that evaluation goes by is another definition. -/
def levelOf : Operator → Nat
  | .plus | .minus => 1
  | .times | .over => 2

/-- Whether a phrase may stand where a level is asked for: an expression at the first, a term at
the second, a factor beyond.  The left operand of an operator may hold others of its level, the
right one only tighter ones: so sums and products associate to the left. -/
def Fits : (level : Nat) → Infix → Prop
  | _, .literal _ digits => isLiteral digits = true
  | _, .group inner => inner.Fits loosest
  | level, .binary op left right =>
    level ≤ levelOf op ∧ left.Fits (levelOf op) ∧ right.Fits (levelOf op + 1)

instance decidableFits : (level : Nat) → (phrase : Infix) → Decidable (phrase.Fits level)
  | _, .literal _ digits => inferInstanceAs (Decidable (isLiteral digits = true))
  | _, .group inner => decidableFits loosest inner
  | level, .binary op left right =>
    have := decidableFits (levelOf op) left
    have := decidableFits (levelOf op + 1) right
    inferInstanceAs (Decidable (level ≤ levelOf op ∧ _ ∧ _))

/-- A phrase as it is written. -/
def text : Infix → Text
  | .literal negative digits => signText negative ++ digits
  | .group inner => '(' :: (inner.text ++ [')'])
  | .binary op left right => left.text ++ op.symbol :: right.text

/-- What a phrase is worth: operands from left to right, then the operator. -/
def value : Infix → Except Fault Binary64
  | .literal negative digits =>
    match Numeral.read? (signText negative ++ digits) with
    | some x => .ok x
    | none => .error .malformed
  | .group inner => inner.value
  | .binary op left right => do op.apply (← left.value) (← right.value)

/-- **Tight phrases fit loosely**: what binds at least as tightly as a level fits below it. -/
theorem fits_of_le {low high : Nat} (h : low ≤ high) (phrase : Infix) (hfits : phrase.Fits high) :
    phrase.Fits low := by
  cases phrase with
  | literal negative digits => exact hfits
  | group inner => exact hfits
  | binary op left right =>
    obtain ⟨hop, hleft, hright⟩ := hfits
    exact ⟨Nat.le_trans h hop, hleft, hright⟩

theorem isInfixChar_symbol (op : Operator) : isInfixChar op.symbol = true := by
  cases op <;> decide

/-- Phrases are written in the characters of expressions. -/
theorem all_isInfixChar_text {level : Nat} {phrase : Infix} (h : phrase.Fits level) :
    phrase.text.all isInfixChar = true := by
  induction phrase generalizing level with
  | literal negative digits =>
    -- every character of a literal is a digit or a point
    have hlit : digits.all isNumeralChar = true := by
      have := h
      simp only [Fits, isLiteral_eq, Bool.and_eq_true] at this
      exact this.1.1
    have hsign : (signText negative).all isInfixChar = true := by
      cases negative <;> decide
    rw [text, List.all_append, hsign, Bool.true_and]
    rw [List.all_eq_true] at hlit ⊢
    intro c hc
    simp [isInfixChar, hlit c hc]
  | group inner ih =>
    rw [text, List.all_cons, List.all_append, ih h]
    decide
  | binary op left right ihl ihr =>
    obtain ⟨-, hleft, hright⟩ := h
    rw [text, List.all_append, List.all_cons, ihl hleft, ihr hright, isInfixChar_symbol]
    rfl

end Infix

end Keypad
