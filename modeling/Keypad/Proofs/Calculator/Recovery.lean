import Keypad.Proofs.Calculator.Stopped
import Keypad.Proofs.Calculator.View

/-!
# Recovery from a fault

A stopped calculator stays as it is until one of the clearing keys is pressed, and from then on it
is a calculator just switched on, with the options it had.  Only its tape is kept; but no operation
reads the tape, so nothing of the past shows in what follows.

## Main definitions

* `View.withoutTape`: the view that hides the tape and nothing else

## Main results

* `performAll_tape`: whatever stands on the tape, a run leads to the same calculator but for the
  tape
* `performAll_clear_of_stopped`: what a stopped calculator is before, at and after its clearing
-/

namespace Keypad

/-- The view that hides the tape. -/
def View.withoutTape : View := ⟨id, id, id, fun _ => .empty⟩

namespace View

/-- No operation depends on the tape. -/
theorem isFaithful_withoutTape : withoutTape.IsFaithful where
  taxRate _ := rfl
  precision _ := rfl
  mode _ := rfl
  mode_change _ := rfl
  switch _ _ := rfl
  change _ _ := rfl
  write _ _ _ := rfl
  text_of_notMem _ _ := rfl
  eraseSeparators_text _ := rfl
  push _ _ _ := rfl

theorem reads_withoutTape (t : Text) : withoutTape.Reads t := ⟨rfl, Iff.rfl, rfl⟩

end View

namespace Calculator

variable {c : Calculator}

/-- **Nothing reads the tape**: a run leads to the same calculator, but for the tape, whatever stood
on the tape before. -/
theorem performAll_tape (c : Calculator) (tape : Tape) (operations : List Operation) :
    { ({ c with tape := tape } : Calculator).performAll operations with tape := .empty } =
      { c.performAll operations with tape := .empty } := by
  -- the two tapes look alike to the view that hides them, and the displays are the same
  have hreads : ∀ d : Calculator, True → View.withoutTape.Reads d.display :=
    fun d _ => View.reads_withoutTape d.display
  have halike : View.withoutTape.see { c with tape := tape } = View.withoutTape.see c := rfl
  have hsame : operations.map View.withoutTape.operation =
      operations.map View.withoutTape.operation := rfl
  exact View.see_performAll View.isFaithful_withoutTape hreads (fun _ _ _ => trivial) halike
    trivial trivial hsame

/-- **Faults are terminal and recovery is complete.**  A stopped calculator stays as it is under
any operations but the clearing keys.  The first clearing key makes it a calculator just switched
on, with the same options and the same tape.  Whatever is done after that leads where it leads from
a calculator just switched on with these options, the tape apart. -/
theorem performAll_clear_of_stopped (hstopped : c.isStopped = true) {before : List Operation}
    (hbefore : ∀ operation ∈ before, operation.clears = false) {clearing : Operation}
    (hclearing : clearing.clears = true) (after : List Operation) :
    c.performAll before = c ∧
      c.performAll (before ++ [clearing]) = { make c.options with tape := c.tape } ∧
      { c.performAll (before ++ clearing :: after) with tape := .empty } =
        { (make c.options).performAll after with tape := .empty } := by
  have hkept : c.performAll before = c := performAll_of_stopped hstopped hbefore
  have hcleared : c.perform clearing = { make c.options with tape := c.tape } :=
    clear_of_stopped hstopped hclearing
  refine ⟨hkept, ?_, ?_⟩
  · rw [performAll_append, hkept]
    exact hcleared
  · rw [performAll_append, hkept, performAll_cons, hcleared]
    exact performAll_tape (make c.options) c.tape after

/-- After `8 / 0 =` a digit and a change of options are ignored; then the entry is cleared, and the
digit after it starts a fresh number. -/
theorem performAll_clear_of_stopped_division :
    let c := (make .standard).pressAll [.digit '8', .operator .over, .digit '0', .equals]
    let before := [Operation.press (.digit '1'), .configure { grouping := some true }]
    c.isStopped = true ∧ (∀ operation ∈ before, operation.clears = false) ∧
      (Operation.press .clearEntry).clears = true ∧ c.performAll before = c ∧
      c.performAll (before ++ [.press .clearEntry]) = { make c.options with tape := c.tape } ∧
      { c.performAll (before ++ .press .clearEntry :: [.press (.digit '5')]) with tape := .empty } =
        { (make c.options).performAll [.press (.digit '5')] with tape := .empty } := by
  have hstopped : ((make .standard).pressAll
      [.digit '8', .operator .over, .digit '0', .equals]).isStopped = true := by decide +kernel
  have hbefore : ∀ operation ∈
      [Operation.press (.digit '1'), .configure { grouping := some true }],
      operation.clears = false := by decide
  exact ⟨hstopped, hbefore, rfl,
    performAll_clear_of_stopped hstopped hbefore rfl [.press (.digit '5')]⟩

end Calculator

end Keypad
