import Keypad.Binary64.Arithmetic
import Keypad.Fault

/-!
# The four operators

## Main definitions

* `Operator`, `Operator.symbol`, `Operator.ofSymbol?`
* `Operator.precedence`, `Operator.isAdditive`, `Operator.apply`

## Main results

* `ofSymbol?_symbol`, `symbol_of_ofSymbol?`: an operator and its symbol determine each other
* `apply_eq_error_iff`: the only failure is a division by zero
-/

namespace Keypad

/-- A binary operator. -/
inductive Operator where
  | plus
  | minus
  | times
  | over
  deriving DecidableEq, Repr

namespace Operator

/-- The character that types an operator. -/
def symbol : Operator → Char
  | .plus => '+'
  | .minus => '-'
  | .times => '*'
  | .over => '/'

/-- The operator typed by a character. -/
def ofSymbol? : Char → Option Operator
  | '+' => some .plus
  | '-' => some .minus
  | '*' => some .times
  | '/' => some .over
  | _ => none

/-- How tightly an operator binds: sums at one, products at two. -/
def precedence : Operator → Nat
  | .plus | .minus => 1
  | .times | .over => 2

/-- Whether the operator is a sum or a difference. -/
def isAdditive (op : Operator) : Bool := op == .plus || op == .minus

/-- Applies an operator; dividing by either zero is the one failure.  The result is neither
rounded to places nor checked for its size. -/
def apply (op : Operator) (left right : Binary64) : Except Fault Binary64 :=
  match op with
  | .plus => .ok (left.add right)
  | .minus => .ok (left.sub right)
  | .times => .ok (left.mul right)
  | .over => if right.isZero then .error .divisionByZero else .ok (left.div right)

@[simp] theorem ofSymbol?_symbol (op : Operator) : ofSymbol? op.symbol = some op := by
  cases op <;> rfl

theorem symbol_of_ofSymbol? {c : Char} {op : Operator} (h : ofSymbol? c = some op) :
    op.symbol = c := by
  unfold ofSymbol? at h
  split at h <;> simp_all [symbol] <;> subst h <;> rfl

/-- **The one failure**: an operator fails only as a division by zero. -/
theorem apply_eq_error_iff (op : Operator) (left right : Binary64) (fault : Fault) :
    op.apply left right = .error fault ↔
      op = .over ∧ right.isZero = true ∧ fault = .divisionByZero := by
  cases op <;> simp only [apply, reduceCtorEq, false_and, true_and]
  split
  · rename_i h
    simp [h, eq_comm]
  · rename_i h
    simp [h]

end Operator

end Keypad
