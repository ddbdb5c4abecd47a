import Keypad.Key

/-!
# Operations

All that a front-end can ask of a calculator.  A key press covers nearly everything, since a digit
key may deliver any character; an operator may also be asked for by its character, and options may
change at any time.

## Main definitions

* `Operation`, `Calculator.perform`, `Calculator.performAll`
* `Calculator.Reachable`: what operations make of a calculator just switched on

## Main results

* `performAll_append`: a run can be performed in two parts
* `reachable_iff`: reachable calculators are the ends of runs
* `Reachable.of_step`: a property that every operation keeps holds wherever a run ends
-/

namespace Keypad

/-- One request to a calculator. -/
inductive Operation where
  | press (key : Key)
  /-- An operator by the character that types it, or by any other character. -/
  | operatorSymbol (symbol : Char)
  | configure (change : OptionsChange)
  deriving DecidableEq, Repr

namespace Calculator

/-- Performs one operation. -/
def perform (c : Calculator) : Operation → Calculator
  | .press key => c.press key
  | .operatorSymbol symbol => c.operatorSymbol symbol
  | .configure change => c.configure change

/-- Performs operations in order. -/
def performAll (c : Calculator) (operations : List Operation) : Calculator :=
  operations.foldl perform c

@[simp] theorem performAll_nil (c : Calculator) : c.performAll [] = c := rfl

@[simp] theorem performAll_cons (c : Calculator) (operation : Operation)
    (rest : List Operation) :
    c.performAll (operation :: rest) = (c.perform operation).performAll rest := rfl

@[simp] theorem performAll_append (c : Calculator) (first second : List Operation) :
    c.performAll (first ++ second) = (c.performAll first).performAll second := by
  simp [performAll]

/-- Pressing keys is performing their presses. -/
theorem performAll_press (c : Calculator) (keys : List Key) :
    c.performAll (keys.map .press) = c.pressAll keys := by
  induction keys generalizing c with
  | nil => rfl
  | cons key rest ih => exact ih (c.press key)

/-- The calculators that operations lead to, from one just switched on with any options. -/
inductive Reachable : Calculator → Prop where
  | make (options : Options) : Reachable (make options)
  | perform {c : Calculator} (operation : Operation) :
    Reachable c → Reachable (c.perform operation)

theorem Reachable.performAll {c : Calculator} (h : Reachable c) (operations : List Operation) :
    Reachable (c.performAll operations) := by
  induction operations generalizing c with
  | nil => exact h
  | cons operation rest ih => exact ih (h.perform operation)

theorem Reachable.pressAll {c : Calculator} (h : Reachable c) (keys : List Key) :
    Reachable (c.pressAll keys) := by
  rw [← performAll_press]
  exact h.performAll (keys.map .press)

/-- **Reachable calculators are the ends of runs.** -/
theorem reachable_iff (c : Calculator) :
    Reachable c ↔ ∃ options operations, c = (make options).performAll operations := by
  constructor
  · intro h
    induction h with
    | make options => exact ⟨options, [], rfl⟩
    | perform operation _ ih =>
      obtain ⟨options, operations, rfl⟩ := ih
      refine ⟨options, operations ++ [operation], ?_⟩
      rw [performAll_append]
      rfl
  · rintro ⟨options, operations, rfl⟩
    exact (Reachable.make options).performAll operations

/-- **Invariants**: what holds of every calculator just switched on, and is kept by every
operation, holds of every reachable calculator. -/
theorem Reachable.of_step {P : Calculator → Prop}
    (start : ∀ options, P (Calculator.make options))
    (step : ∀ c operation, P c → P (c.perform operation)) {c : Calculator} (h : Reachable c) :
    P c := by
  induction h with
  | make options => exact start options
  | perform operation _ ih => exact step _ operation ih

end Calculator

end Keypad
