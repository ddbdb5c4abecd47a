import Keypad.Operation

/-!
# The stopped calculator

A calculator that a fault has stopped stays as it is until one of the two clearing keys is
pressed.

## Main definitions

* `Operation.clears`: the clearing keys

## Main results

* `perform_of_stopped`: any other operation changes nothing
* `performAll_of_stopped`: nor does a run of them
* `clear_of_stopped`: the clearing keys reset it
-/

namespace Keypad

/-- Whether an operation is one of the two clearing keys. -/
def Operation.clears : Operation → Bool
  | .press .clearAll => true
  | .press .clearEntry => true
  | _ => false

namespace Calculator

theorem isStopped_stop (c : Calculator) (fault : Fault) : (c.stop fault).isStopped = true := rfl

theorem isStopped_eq_false {c : Calculator} (h : c.alarm = none) : c.isStopped = false := by
  unfold isStopped
  rw [h]
  rfl

/-- **A stopped calculator stays as it is**: every operation but clearing changes nothing. -/
theorem perform_of_stopped {c : Calculator} (h : c.isStopped = true) {operation : Operation}
    (hclears : operation.clears = false) : c.perform operation = c := by
  have hkeeps : ∀ next, c.whenRunning next = c := whenRunning_of_stopped h
  cases operation with
  | press key =>
    cases key with
    | clearEntry => cases hclears
    | clearAll => cases hclears
    | _ => exact hkeeps _
  | operatorSymbol symbol => exact hkeeps _
  | configure change => exact hkeeps _

/-- Either clearing key resets a stopped calculator. -/
theorem clear_of_stopped {c : Calculator} (h : c.isStopped = true) {clearing : Operation}
    (hclears : clearing.clears = true) : c.perform clearing = c.clearAll := by
  cases clearing with
  | press key =>
    cases key with
    | clearAll => rfl
    | clearEntry => exact clearEntry_of_stopped h
    | _ => cases hclears
  | operatorSymbol symbol => cases hclears
  | configure change => cases hclears

/-- What holds of a stopped calculator and of the reset one holds after any operation. -/
theorem perform_cases_of_stopped {P : Calculator → Prop} {c : Calculator}
    (h : c.isStopped = true) (hc : P c) (hclear : P c.clearAll) (operation : Operation) :
    P (c.perform operation) := by
  cases hclears : operation.clears with
  | true =>
    rw [clear_of_stopped h hclears]
    exact hclear
  | false =>
    rw [perform_of_stopped h hclears]
    exact hc

theorem performAll_of_stopped {c : Calculator} (h : c.isStopped = true)
    {operations : List Operation} (hclears : ∀ operation ∈ operations, operation.clears = false) :
    c.performAll operations = c := by
  induction operations with
  | nil => rfl
  | cons operation rest ih =>
    rw [performAll_cons, perform_of_stopped h (hclears operation (by simp))]
    exact ih fun other hother => hclears other (by simp [hother])

/-- Keys other than the clearing ones change nothing on a stopped calculator. -/
theorem pressAll_of_stopped {c : Calculator} (h : c.isStopped = true) {keys : List Key}
    (hclears : ∀ key ∈ keys, (Operation.press key).clears = false) : c.pressAll keys = c := by
  rw [← performAll_press]
  refine performAll_of_stopped h fun operation hoperation => ?_
  obtain ⟨key, hkey, rfl⟩ := List.mem_map.mp hoperation
  exact hclears key hkey

end Calculator

end Keypad
