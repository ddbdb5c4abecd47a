import Keypad.Fault
import Keypad.Text.Lowercase

/-!
# Modes of computation

## Main definitions

* `Mode`, `Mode.name`, `Mode.ofName?`
* `Mode.ofLabel`: the mode a typed name stands for, in any case

## Main results

* `ofName?_name`, `ofLabel_name`: a mode is found by its own name
-/

namespace Keypad

/-- How keys compute. -/
inductive Mode where
  /-- A running chain: each operator reduces what came before it. -/
  | sequential
  /-- The display holds an expression, evaluated as a whole. -/
  | expression
  deriving DecidableEq, Repr

namespace Mode

/-- The name of a mode. -/
def name : Mode → Text
  | .sequential => "sequential".toList
  | .expression => "expression".toList

/-- The mode with exactly this name. -/
def ofName? (name : Text) : Option Mode :=
  [sequential, expression].find? fun mode => mode.name == name

/-- The names a mode can be typed by, in lower case. -/
def aliases : Mode → List Text
  | .sequential => ["sequential".toList, "seq".toList, "chain".toList]
  | .expression => ["expression".toList, "expr".toList]

/-- The mode a typed name stands for; letters in any case, blanks not ignored.  An unknown name is
reported in lower case. -/
def ofLabel (label : Text) : Except LabelError Mode :=
  let lowered := Text.lower label
  match [sequential, expression].find? fun mode => mode.aliases.contains lowered with
  | some mode => .ok mode
  | none => .error (.unknownMode lowered)

theorem ofName?_name (mode : Mode) : ofName? mode.name = some mode := by
  cases mode <;> decide

theorem ofLabel_name (mode : Mode) : ofLabel mode.name = .ok mode := by
  unfold ofLabel
  rw [Text.lower_eq_self_of_small _ (by cases mode <;> decide)]
  cases mode <;> rfl

end Mode

end Keypad
