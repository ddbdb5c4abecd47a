import Keypad.Calculator.Typing

/-!
# Operators and equals

In sequential mode an operator reduces the chain at once, without precedence, and equals applies
the pending operator, again and again if pressed repeatedly.  In expression mode operators are
typed and equals evaluates.

## Main definitions

* `Calculator.operator`, `operatorSymbol`, `equals`
* `Calculator.operand`: the number that percent and tax act on

## Main results

* `equals_of_sequential`, `equals_of_expression`: equals in either mode
* `equals_of_operand`: equals reduces the pending operator with its operands, or stops
-/

namespace Keypad

namespace Calculator

/-- Applies an operator and accepts the result at the places in effect. -/
def reduce (c : Calculator) (op : Operator) (left right : Binary64) : Except Fault Binary64 := do
  (← op.apply left right).accept c.places

/-- Leaves an operator pending, to await its right operand. -/
def awaitOperand (c : Calculator) (op : Operator) : Calculator :=
  { c with pending := some op, recent := none, fresh := true }

/-- An operator in a chain: reduces what is pending if an operand was typed, or takes the display
as the first operand.  A display that is no number leaves all as it is. -/
def advanceChain (c : Calculator) (op : Operator) : Except Fault Calculator :=
  match c.value? with
  | none => .ok c
  | some current =>
    match c.pending, c.accumulator with
    | some pending, some accumulator =>
      if c.fresh then .ok (c.awaitOperand op)
      else do
        let reduced ← c.reduce pending accumulator current
        .ok ({ c with accumulator := some reduced, display := c.textOf reduced }.awaitOperand op)
    | _, none => .ok ({ c with accumulator := some current }.awaitOperand op)
    | _, _ => .ok (c.awaitOperand op)

/-- The operator keys. -/
def operator (c : Calculator) (op : Operator) : Calculator :=
  c.whenRunning <|
    match c.options.mode with
    | .sequential => c.orStop (c.advanceChain op)
    | .expression => c.extend [op.symbol]

/-- An operator given by its character.  Any other character stops the calculator. -/
def operatorSymbol (c : Calculator) (symbol : Char) : Calculator :=
  c.whenRunning <|
    match Operator.ofSymbol? symbol with
    | some op => c.operator op
    | none => c.stop .invalidOperator

/-- The right operand that equals applies: what was typed, or after a result the one applied
last, or else the running result itself. -/
def rightOperand? (c : Calculator) (accumulator : Binary64) : Option Binary64 :=
  if c.fresh then some (c.recent.getD accumulator) else c.value?

/-- One computation of a chain as it stands on the tape. -/
def chainText (c : Calculator) (left : Binary64) (op : Operator) (right : Binary64) : Text :=
  c.textOf left ++ [' ', op.symbol, ' '] ++ c.textOf right

/-- A completed computation: its result on the display and on the tape. -/
def complete (c : Calculator) (expression : Text) (result : Binary64) : Calculator :=
  { c with
    display := c.textOf result
    fresh := true
    tape := c.tape.push ⟨expression, c.textOf result⟩ }

/-- Equals in a chain.  With nothing pending the display becomes the running result. -/
def concludeChain (c : Calculator) : Except Fault Calculator :=
  match c.pending, c.accumulator with
  | some op, some accumulator =>
    match c.rightOperand? accumulator with
    | none => .ok c
    | some right => do
      let result ← c.reduce op accumulator right
      .ok { c.complete (c.chainText accumulator op right) result with
        accumulator := some result
        recent := some right }
  | _, _ => .ok { c with accumulator := c.value?, fresh := true }

/-- Equals on an expression: evaluates what was typed; a result stays. -/
def concludeExpression (c : Calculator) : Except Fault Calculator :=
  if c.fresh then .ok c
  else do
    let source := withoutBlanks c.buffer
    let result ← (← evaluate source).accept c.places
    .ok (c.complete source result)

/-- The equals key. -/
def equals (c : Calculator) : Calculator :=
  c.whenRunning <|
    match c.options.mode with
    | .sequential => c.orStop c.concludeChain
    | .expression => c.orStop c.concludeExpression

theorem equals_of_sequential {c : Calculator} (hrunning : c.isStopped = false)
    (hmode : c.options.mode = .sequential) : c.equals = c.orStop c.concludeChain := by
  unfold equals
  rw [whenRunning_of_running hrunning, hmode]

theorem equals_of_expression {c : Calculator} (hrunning : c.isStopped = false)
    (hmode : c.options.mode = .expression) : c.equals = c.orStop c.concludeExpression := by
  unfold equals
  rw [whenRunning_of_running hrunning, hmode]

/-- Equals with an operator pending and both operands there. -/
theorem equals_of_operand {c : Calculator} (hrunning : c.isStopped = false)
    (hmode : c.options.mode = .sequential) {op : Operator} (hpending : c.pending = some op)
    {left : Binary64} (haccumulator : c.accumulator = some left) {right : Binary64}
    (hright : c.rightOperand? left = some right) :
    c.equals =
      match c.reduce op left right with
      | .ok result =>
        { c.complete (c.chainText left op right) result with
          accumulator := some result
          recent := some right }
      | .error fault => c.stop fault := by
  rw [equals_of_sequential hrunning hmode]
  unfold concludeChain
  rw [hpending, haccumulator]
  dsimp only
  rw [hright]
  show c.orStop ((c.reduce op left right).bind _) = _
  cases c.reduce op left right <;> rfl

/-- The number that percent and tax act on: the display, an expression on it evaluated first. -/
def operand (c : Calculator) : Except Fault (Option Binary64) :=
  match c.options.mode, c.value? with
  | .sequential, current => .ok current
  | .expression, some current => .ok (some current)
  | .expression, none => (evaluate c.buffer).map some

end Calculator

end Keypad
