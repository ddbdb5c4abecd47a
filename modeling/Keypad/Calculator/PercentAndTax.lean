import Keypad.Calculator.Chain

/-!
# Percent and tax

Keys that turn the number on the display into another; the result can be edited and used as an
operand.

## Main definitions

* `Calculator.percent`, `addTax`, `removeTax`
-/

namespace Keypad

/-- Tax results are rounded and shown at two places, whatever places are in effect. -/
def taxPlaces : Nat := 2

namespace Calculator

/-- The number one hundred. -/
def hundred : Binary64 := .ofNat 100

/-- A hundredth of a number, or of its share in the running result while a sum is pending:
`200 + 10 %` stands for `200 + 20`. -/
def percentage (c : Calculator) (current : Binary64) : Binary64 :=
  match c.pending, c.accumulator with
  | some op, some accumulator =>
    if op.isAdditive then (accumulator.mul current).div hundred else current.div hundred
  | _, _ => current.div hundred

/-- Replaces the entry by a number made from it; without a number all stays. -/
def convert (c : Calculator) (places : Nat)
    (f : Binary64 → Except Fault Binary64) : Calculator :=
  c.whenRunning <| c.orStop <| do
    match ← c.operand with
    | none => .ok c
    | some current =>
      let result ← (← f current).accept places
      .ok (c.typing ({ c.style with places := places }.write result))

/-- The percent key. -/
def percent (c : Calculator) : Calculator :=
  c.convert c.places fun current => .ok (c.percentage current)

/-- One plus the tax rate. -/
def taxFactor (c : Calculator) : Binary64 := Binary64.one.add c.options.taxRate

/-- Adds tax. -/
def addTax (c : Calculator) : Calculator :=
  c.convert taxPlaces fun current => .ok (current.mul c.taxFactor)

/-- Takes tax off, which has no answer at a rate of minus one. -/
def removeTax (c : Calculator) : Calculator :=
  c.convert taxPlaces fun current =>
    if c.taxFactor.isZero then .error .invalidTaxRate else .ok (current.div c.taxFactor)

end Calculator

end Keypad
