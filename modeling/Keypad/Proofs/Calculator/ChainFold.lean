import Keypad.Proofs.Calculator.Stopped
import Keypad.Proofs.Calculator.TypedNumber
import Keypad.Proofs.Outcome
import Mathlib.Data.List.Induction

/-!
# A chain is a left fold

Numbers and operators typed in turn are folded from the left: each operator reduces what stands
before it, and equals reduces the whole.  The first step that fails stops the calculator, and the
keys after it change nothing.

## Main definitions

* `chainValue`: the left fold of a first number over operators with their numbers
* `chainKeys`: the keys that type a chain
* `Calculator.operandTyped`: the calculator when a right operand has been typed

## Main results

* `pressAll_chainKeys`: before equals, the accumulator holds the fold of all but the last operator
* `pressAll_chain`: equals shows the fold, or the fault of its first failing step
-/

namespace Keypad

/-- One operator of a chain with its right operand. -/
abbrev ChainStep := Operator × TypedNumber

/-- A running result after one more step, rounded to places. -/
def chainStep (places : Nat) (left : Binary64) (step : ChainStep) : Except Fault Binary64 :=
  (step.1.apply left step.2.value).bind (Binary64.accept places)

/-- The left fold of a chain. -/
def chainValue (places : Nat) (first : TypedNumber) (steps : List ChainStep) :
    Except Fault Binary64 :=
  steps.foldlM (chainStep places) first.value

/-- The keys that type a chain: the first number, then operators and numbers in turn. -/
def chainKeys (first : TypedNumber) (steps : List ChainStep) : List Key :=
  first.keys ++ steps.flatMap fun step => .operator step.1 :: step.2.keys

theorem chainValue_append_singleton (places : Nat) (first : TypedNumber)
    (steps : List ChainStep) (step : ChainStep) :
    chainValue places first (steps ++ [step]) =
      (chainValue places first steps).bind fun left => chainStep places left step := by
  rw [chainValue, chainValue, List.foldlM_append]
  refine congrArg (Except.bind _) (funext fun left => ?_)
  rw [List.foldlM_cons]
  cases chainStep places left step <;> rfl

theorem chainKeys_append_singleton (first : TypedNumber) (steps : List ChainStep)
    (step : ChainStep) :
    chainKeys first (steps ++ [step]) =
      chainKeys first steps ++ .operator step.1 :: step.2.keys := by
  simp [chainKeys]

/-- A number of one digit. -/
def TypedNumber.ofDigit (d : Char) (h : d.isDigit = true) : TypedNumber where
  whole := [d]
  places? := none
  whole_ne_nil := List.cons_ne_nil d []
  whole_digits c hc := List.mem_singleton.mp hc ▸ h
  whole_of_zero hzero := by rw [Option.some.inj hzero]
  places_digits := nofun
  places_short := Nat.zero_le _
  digits_few := (by decide : 1 ≤ digitCeiling)

theorem clears_keys (n : TypedNumber) : ∀ key ∈ n.keys, (Operation.press key).clears = false := by
  intro key hkey
  obtain ⟨c, -, rfl⟩ := List.mem_map.mp hkey
  unfold TypedNumber.keyOf
  split <;> rfl

namespace Calculator

/-- The calculator in a chain when a right operand has been typed. -/
def operandTyped (options : Options) (left : Binary64) (step : ChainStep) : Calculator :=
  { make options with
    display := step.2.text
    accumulator := some left
    pending := some step.1
    fresh := false }

section Sequential

variable {options : Options} (hmode : options.mode = .sequential)

include hmode

/-- The first operator takes the number typed as the running result. -/
theorem operator_first (first : TypedNumber) (op : Operator) :
    ((make options).typing first.text).operator op =
      { make options with
        display := first.text, accumulator := some first.value, pending := some op } := by
  have hvalue : ((make options).typing first.text).value? = some first.value :=
    first.readDisplay?_text
  have hseq : ((make options).typing first.text).options.mode = .sequential := hmode
  rw [operator, whenRunning_of_running rfl, hseq]
  simp only [advanceChain, hvalue]
  rfl

/-- A further operator reduces the step before it. -/
theorem operator_operandTyped (left : Binary64) (step : ChainStep) (op : Operator) :
    (operandTyped options left step).operator op =
      match chainStep options.precision.toNat left step with
      | .ok result =>
        { make options with
          display := (make options).textOf result, accumulator := some result, pending := some op }
      | .error fault => (make options).stop fault := by
  have hvalue : (operandTyped options left step).value? = some step.2.value :=
    step.2.readDisplay?_text
  have hseq : (operandTyped options left step).options.mode = .sequential := hmode
  rw [operator, whenRunning_of_running rfl, hseq]
  simp only [advanceChain, hvalue]
  show (operandTyped options left step).orStop
    ((chainStep options.precision.toNat left step).bind _) = _
  cases chainStep options.precision.toNat left step <;> rfl

/-- Equals reduces the last step and writes it on the tape. -/
theorem equals_operandTyped (left : Binary64) (step : ChainStep) :
    (operandTyped options left step).equals =
      match chainStep options.precision.toNat left step with
      | .ok result =>
        { make options with
          display := (make options).textOf result
          accumulator := some result
          pending := some step.1
          recent := some step.2.value
          tape := ⟨[⟨(make options).chainText left step.1 step.2.value,
            (make options).textOf result⟩]⟩ }
      | .error fault => (make options).stop fault := by
  have hright : (operandTyped options left step).rightOperand? left = some step.2.value :=
    step.2.readDisplay?_text
  have hseq : (operandTyped options left step).options.mode = .sequential := hmode
  have hreduce : (operandTyped options left step).reduce step.1 left step.2.value =
      chainStep options.precision.toNat left step := rfl
  rw [equals_of_operand rfl hseq rfl rfl hright, hreduce]
  cases chainStep options.precision.toNat left step <;> rfl

/-- **The chain before equals**: the last operator is pending with its operand typed, and the
accumulator holds the fold of the steps before it. -/
theorem pressAll_chainKeys (first : TypedNumber) (steps : List ChainStep) (last : ChainStep) :
    (make options).pressAll (chainKeys first (steps ++ [last])) =
      match chainValue options.precision.toNat first steps with
      | .ok left => operandTyped options left last
      | .error fault => (make options).stop fault := by
  induction steps using List.reverseRecOn generalizing last with
  | nil =>
    rw [chainKeys_append_singleton, pressAll_append]
    -- the first number stands alone, so its operator reduces nothing
    have hfirst : (make options).pressAll (chainKeys first []) =
        (make options).typing first.text := by
      rw [chainKeys, List.flatMap_nil, List.append_nil]
      exact pressAll_keys rfl hmode rfl first
    have hoperator := operator_first hmode first last.1
    rw [hfirst, pressAll_cons, press, hoperator, pressAll_keys rfl hmode rfl]
    rfl
  | append_singleton steps step ih =>
    rw [chainKeys_append_singleton, pressAll_append, ih, chainValue_append_singleton]
    cases chainValue options.precision.toNat first steps with
    | error fault =>
      -- the keys after a failing step meet a stopped calculator
      refine pressAll_of_stopped (isStopped_stop _ fault) fun key hkey => ?_
      rcases List.mem_cons.mp hkey with rfl | hkey
      · rfl
      · exact clears_keys last.2 key hkey
    | ok left =>
      -- the next operator reduces the step that was pending
      show ((operandTyped options left step).operator last.1).pressAll last.2.keys =
        match chainStep options.precision.toNat left step with
        | .ok left => operandTyped options left last
        | .error fault => (make options).stop fault
      rw [operator_operandTyped hmode]
      cases chainStep options.precision.toNat left step with
      | error fault => exact pressAll_of_stopped (isStopped_stop _ fault) (clears_keys last.2)
      | ok result =>
        rw [pressAll_keys rfl hmode rfl]
        rfl

end Sequential

/-- **A chain is a left fold.**  Typing a number, then operators and numbers in turn, at least one
of each, and then equals shows the left fold of the chain: the fold is the running result, the
last number is kept for repeated equals, the last operator stays pending, and the tape holds
this one computation.  If a step of the fold fails, the first such step stops the calculator as
it was switched on, with an empty tape. -/
theorem pressAll_chain (options : Options) (hmode : options.mode = .sequential)
    (first : TypedNumber) (steps : List ChainStep) (last : ChainStep) :
    (make options).pressAll (chainKeys first (steps ++ [last]) ++ [.equals]) =
      match chainValue options.precision.toNat first (steps ++ [last]) with
      | .ok result =>
        { make options with
          display := (make options).textOf result
          accumulator := some result
          pending := some last.1
          recent := readDisplay? last.2.text
          tape := ⟨[⟨(make options).chainText
            ((chainValue options.precision.toNat first steps).toOption.getD .nan) last.1
              last.2.value, (make options).textOf result⟩]⟩ }
      | .error fault => (make options).stop fault := by
  rw [pressAll_append, pressAll_chainKeys hmode, chainValue_append_singleton,
    last.2.readDisplay?_text]
  cases chainValue options.precision.toNat first steps with
  | error fault => exact pressAll_of_stopped (isStopped_stop _ fault) (by simp [Operation.clears])
  | ok left => exact equals_operandTyped hmode left last

/-- `2 + 3 * 4 =` is computed without precedence. -/
theorem pressAll_chain_twenty :
    Options.standard.mode = .sequential ∧
      ((make .standard).pressAll
          (chainKeys (.ofDigit '2' rfl)
            ([(.plus, .ofDigit '3' rfl)] ++ [(.times, .ofDigit '4' rfl)]) ++ [.equals])).display =
        "20".toList := by
  refine ⟨rfl, ?_⟩
  have hfold : chainValue Options.standard.precision.toNat (.ofDigit '2' rfl)
      ([(.plus, .ofDigit '3' rfl)] ++ [(.times, .ofDigit '4' rfl)]) = .ok (.ofInt 20) := by
    decide +kernel
  rw [pressAll_chain .standard rfl, hfold]
  decide +kernel

end Calculator

end Keypad
