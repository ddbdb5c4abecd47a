import Keypad.Calculator.Chain
import Keypad.Calculator.Configure
import Keypad.Calculator.Register
import Keypad.Calculator.PercentAndTax

/-!
# Keys

The keys of the keypad, the labels they are typed by, and what pressing them does.

## Main definitions

* `Key`, `Key.label`, `Key.ofLabel`
* `Calculator.press`, `Calculator.pressAll`

## Main results

* `pressAll_append`: a run of keys can be pressed in two parts
-/

namespace Keypad

/-- A key. -/
inductive Key where
  | digit (d : Char)
  | point
  | operator (op : Operator)
  | equals
  | percent
  | addTax
  | removeTax
  | changeSign
  | backspace
  | clearEntry
  | clearAll
  | storeMemory
  | recallMemory
  | addToMemory
  | subtractFromMemory
  | emptyMemory
  | openParenthesis
  | closeParenthesis
  | mode (mode : Mode)
  deriving DecidableEq, Repr

namespace Key

/-- The label of a key. -/
def label : Key → Text
  | .digit d => [d]
  | .point => ['.']
  | .operator op => [op.symbol]
  | .equals => ['=']
  | .percent => ['%']
  | .addTax => "TAX+".toList
  | .removeTax => "TAX-".toList
  | .changeSign => "+/-".toList
  | .backspace => "BS".toList
  | .clearEntry => "CE".toList
  | .clearAll => "C".toList
  | .storeMemory => "MS".toList
  | .recallMemory => "MR".toList
  | .addToMemory => "M+".toList
  | .subtractFromMemory => "M-".toList
  | .emptyMemory => "MC".toList
  | .openParenthesis => ['(']
  | .closeParenthesis => [')']
  | .mode m => "MODE:".toList ++ m.name

/-- The keys with a label of their own, that are neither digits nor modes; the other labels that
stand for some of them come last. -/
def labelled : List (Text × Key) :=
  [.point, .operator .plus, .operator .minus, .operator .times, .operator .over, .equals,
    .percent, .addTax, .removeTax, .changeSign, .backspace, .clearEntry, .clearAll,
    .storeMemory, .recallMemory, .addToMemory, .subtractFromMemory, .emptyMemory, .openParenthesis,
    .closeParenthesis].map (fun key : Key => (key.label, key)) ++
  [(['×'], .operator .times), (['÷'], .operator .over), (['±'], .changeSign),
    (['⌫'], .backspace), ("AC".toList, .clearAll)]

/-- The key a label stands for, blanks around it aside and ASCII letters in any case. -/
def ofLabel (t : Text) : Except LabelError Key :=
  let trimmed := Text.trim t
  let label := Text.upper trimmed
  match Text.dropStart? "MODE:".toList label with
  | some name => (Mode.ofLabel name).map .mode
  | none =>
    match label with
    | [d] =>
      if d.isDigit then .ok (.digit d)
      else byLabel trimmed label
    | _ => byLabel trimmed label
where
  /-- The key with a label of its own. -/
  byLabel (typed label : Text) : Except LabelError Key :=
    match labelled.find? fun entry => entry.1 == label with
    | some entry => .ok entry.2
    | none => .error (.unknownKey typed)

end Key

namespace Calculator

/-- Presses a key. -/
def press (c : Calculator) : Key → Calculator
  | .digit d => c.digit d
  | .point => c.point
  | .operator op => c.operator op
  | .equals => c.equals
  | .percent => c.percent
  | .addTax => c.addTax
  | .removeTax => c.removeTax
  | .changeSign => c.changeSign
  | .backspace => c.backspace
  | .clearEntry => c.clearEntry
  | .clearAll => c.clearAll
  | .storeMemory => c.storeMemory
  | .recallMemory => c.recallMemory
  | .addToMemory => c.addToMemory
  | .subtractFromMemory => c.subtractFromMemory
  | .emptyMemory => c.emptyMemory
  | .openParenthesis => c.parenthesis true
  | .closeParenthesis => c.parenthesis false
  | .mode mode => c.switchMode mode

/-- Presses keys in order. -/
def pressAll (c : Calculator) (keys : List Key) : Calculator := keys.foldl press c

theorem pressAll_cons (c : Calculator) (key : Key) (rest : List Key) :
    c.pressAll (key :: rest) = (c.press key).pressAll rest := rfl

theorem pressAll_append (c : Calculator) (first second : List Key) :
    c.pressAll (first ++ second) = (c.pressAll first).pressAll second := by
  simp [pressAll]

end Calculator

end Keypad
