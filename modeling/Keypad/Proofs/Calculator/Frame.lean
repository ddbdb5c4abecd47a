import Keypad.Proofs.Calculator.Effect

/-!
# What operations leave alone

Every part of a calculator changes only under its own operations: the memory register under the
memory keys, the options under a change of options, the mode under a change of mode, the tape under
equals, and the computation under operators, equals and a change of mode.  The clearing keys reset
all but options and tape.  An operation that fails changes none of these but the computation, which
it drops, so nothing half-done survives.

## Main definitions

* `Calculator.writesMemory`, `writesComputation`, `Operation.configures`, `switchesMode`: the
  operations that own a part

## Main results

* `perform_failure`: a failed operation leaves the calculator as it was, but stopped
* `perform_frame`: each part changes only under the operations that own it
-/

namespace Keypad

/-- Whether an operation may change the options other than the mode. -/
def Operation.configures : Operation → Bool
  | .configure _ => true
  | _ => false

/-- Whether an operation may change the mode. -/
def Operation.switchesMode : Operation → Bool
  | .press (.mode _) => true
  | .configure _ => true
  | _ => false

namespace Calculator

/-- Whether an operation may change the memory register. -/
def writesMemory (c : Calculator) : Operation → Bool
  | .press .storeMemory => true
  | .press .addToMemory => true
  | .press .subtractFromMemory => true
  | .press .emptyMemory => true
  | .press .clearAll => true
  | .press .clearEntry => c.isStopped
  | _ => false

/-- Whether an operation may change the computation under way, other than by failing. -/
def writesComputation (c : Calculator) : Operation → Bool
  | .press (.operator _) => true
  | .operatorSymbol _ => true
  | .press .equals => true
  | .press .clearAll => true
  | .press .clearEntry => c.isStopped
  | .press (.mode mode) => mode != c.options.mode
  | .configure change => change.mode.getD c.options.mode != c.options.mode
  | _ => false

variable {c next : Calculator} {operation : Operation}

/-! ## Failure -/

/-- An operation that has its effect keeps a running calculator running. -/
theorem Effect.alarm (h : c.Effect operation next) (hrunning : c.alarm = none) :
    next.alarm = none := by
  cases operation with
  | press key =>
    cases key with
    | clearEntry =>
      have hedits : c.Edits next := h.edits_clearEntry (isStopped_eq_false hrunning)
      exact (congrArg Calculator.alarm hedits).trans hrunning
    | clearAll => exact congrArg Calculator.alarm h
    | mode mode => exact (congrArg Calculator.alarm h.1.frame).trans hrunning
    | _ => exact (congrArg Calculator.alarm h).trans hrunning
  | operatorSymbol symbol => exact (congrArg Calculator.alarm h).trans hrunning
  | configure change => exact (congrArg Calculator.alarm h.frame).trans hrunning

/-- **A failing operation leaves nothing half-changed.**  If an operation stops a running
calculator, then with the alarm of a fault, and the calculator differs from what it was in no more
than this: the message is displayed, the computation is dropped and a fresh number is awaited.  All
operations but the operators, equals, percent, tax, sums into the memory and an undue digit never
stop it. -/
theorem perform_failure (hrunning : c.alarm = none) (operation : Operation) :
    (∀ alarm, (c.perform operation).alarm = some alarm →
      (∃ fault : Fault, alarm = fault.alarm) ∧
        c.perform operation =
          { c with
            display := alarm.message
            accumulator := none
            pending := none
            recent := none
            fresh := true
            alarm := some alarm }) ∧
      (operation.canFail = false → (c.perform operation).alarm = none) := by
  rcases perform_effect c operation with ⟨hcan, fault, hstop⟩ | heffect
  · refine ⟨fun alarm halarm => ?_, fun hcannot => ?_⟩
    · -- the alarm is the one that stopping has raised
      rw [hstop] at halarm ⊢
      obtain rfl : fault.alarm = alarm := Option.some.inj halarm
      exact ⟨⟨fault, rfl⟩, rfl⟩
    · rw [hcan] at hcannot
      cases hcannot
  · have hkept : (c.perform operation).alarm = none := heffect.alarm hrunning
    refine ⟨fun alarm halarm => ?_, fun _ => hkept⟩
    rw [hkept] at halarm
    cases halarm

/-- Equals fails on `5 / 0` with `5` stored and one entry on the tape; the point key does not. -/
theorem perform_failure_division :
    let c := (make .standard).pressAll
      [.digit '2', .operator .plus, .digit '3', .equals, .storeMemory, .operator .over, .digit '0']
    c.alarm = none ∧ c.memory = some (.ofInt 5) ∧ c.tape.entries.length = 1 ∧
      c.perform (.press .equals) =
        { c with
          display := "Cannot divide by zero".toList
          accumulator := none
          pending := none
          recent := none
          fresh := true
          alarm := some ⟨.divisionByZero, "Cannot divide by zero".toList⟩ } ∧
      (c.perform (.press .point)).alarm = none := by
  intro c
  have hrunning : c.alarm = none := by decide +kernel
  have hstopped : (c.perform (.press .equals)).alarm = some Fault.divisionByZero.alarm := by
    decide +kernel
  exact ⟨hrunning, by decide +kernel, by decide +kernel,
    ((perform_failure hrunning (.press .equals)).1 _ hstopped).2,
    (perform_failure hrunning (.press .point)).2 rfl⟩

/-! ## The parts of a calculator -/

/-- What holds wherever an operation stops the calculator and wherever it has its effect. -/
theorem perform_cases {P : Calculator → Prop} (hstop : ∀ fault, P (c.stop fault))
    (heffect : c.Effect operation (c.perform operation) → P (c.perform operation)) :
    P (c.perform operation) := by
  rcases perform_effect c operation with ⟨-, fault, hfails⟩ | h
  · rw [hfails]
    exact hstop fault
  · exact heffect h

/-- The register changes only under the operations that write it. -/
theorem memory_perform (c : Calculator) (hwrites : c.writesMemory operation = false) :
    (c.perform operation).memory = c.memory := by
  refine perform_cases (P := fun next => next.memory = c.memory) (fun _ => rfl) fun h => ?_
  -- the owners are excluded, and the effect of any other operation fixes the register by its form
  cases operation with
  | press key =>
    cases key with
    | storeMemory => cases hwrites
    | addToMemory => cases hwrites
    | subtractFromMemory => cases hwrites
    | emptyMemory => cases hwrites
    | clearAll => cases hwrites
    | clearEntry => exact (congrArg Calculator.memory (h.edits_clearEntry hwrites)).trans rfl
    | mode mode => exact (congrArg Calculator.memory h.1.frame).trans rfl
    | _ => exact (congrArg Calculator.memory h).trans rfl
  | operatorSymbol symbol => exact (congrArg Calculator.memory h).trans rfl
  | configure change => exact (congrArg Calculator.memory h.frame).trans rfl

/-- The clearing keys keep the options and the tape. -/
theorem Effect.kept_clearEntry (h : c.Effect (.press .clearEntry) next) :
    next.options = c.options ∧ next.tape = c.tape := by
  cases hstopped : c.isStopped with
  | true =>
    obtain rfl : next = c.clearAll := by simpa [Effect, hstopped] using h
    exact ⟨rfl, rfl⟩
  | false =>
    have hedits : c.Edits next := h.edits_clearEntry hstopped
    exact ⟨(congrArg Calculator.options hedits).trans rfl,
      (congrArg Calculator.tape hedits).trans rfl⟩

/-- The mode, and with it every other option, changes only under a change of mode or of options. -/
theorem options_perform (c : Calculator) (hswitches : operation.switchesMode = false) :
    (c.perform operation).options = c.options := by
  refine perform_cases (P := fun next => next.options = c.options) (fun _ => rfl) fun h => ?_
  cases operation with
  | press key =>
    cases key with
    | clearEntry => exact h.kept_clearEntry.1
    | clearAll => exact (congrArg Calculator.options h).trans rfl
    | mode mode => cases hswitches
    | _ => exact (congrArg Calculator.options h).trans rfl
  | operatorSymbol symbol => exact (congrArg Calculator.options h).trans rfl
  | configure change => cases hswitches

/-- A change of mode leaves the other options alone. -/
theorem options_perform_of_not_configures (c : Calculator)
    (hconfigures : operation.configures = false) :
    (c.perform operation).options =
      { c.options with mode := (c.perform operation).options.mode } := by
  cases hswitches : operation.switchesMode with
  | false => rw [options_perform c hswitches]
  | true =>
    cases operation with
    | press key =>
      cases key with
      | mode mode => exact options_switchMode c mode
      | _ => cases hswitches
    | operatorSymbol symbol => cases hswitches
    | configure change => cases hconfigures

/-- The tape changes only under equals. -/
theorem tape_perform_of_ne (c : Calculator) (hequals : operation ≠ .press .equals) :
    (c.perform operation).tape = c.tape := by
  refine perform_cases (P := fun next => next.tape = c.tape) (fun _ => rfl) fun h => ?_
  cases operation with
  | press key =>
    cases key with
    | equals => exact absurd rfl hequals
    | clearEntry => exact h.kept_clearEntry.2
    | clearAll => exact (congrArg Calculator.tape h).trans rfl
    | mode mode => exact (congrArg Calculator.tape h.1.frame).trans rfl
    | _ => exact (congrArg Calculator.tape h).trans rfl
  | operatorSymbol symbol => exact (congrArg Calculator.tape h).trans rfl
  | configure change => exact (congrArg Calculator.tape h.frame).trans rfl

theorem sameComputation_of_eq {d : Calculator} (h : next = d) (hd : c.SameComputation d) :
    c.SameComputation next := h ▸ hd

/-- The computation goes on under all operations but those that write it or fail. -/
theorem sameComputation_perform (c : Calculator)
    (hwrites : c.writesComputation operation = false)
    (hrunning : (c.perform operation).alarm = none) :
    c.SameComputation (c.perform operation) := by
  -- stopping drops the computation, which is why the operation must not end stopped
  refine perform_cases (P := fun next => next.alarm = none → c.SameComputation next)
    (fun _ => nofun) (fun h _ => ?_) hrunning
  cases operation with
  | press key =>
    cases key with
    | operator op => cases hwrites
    | equals => cases hwrites
    | clearAll => cases hwrites
    | clearEntry => exact sameComputation_of_eq (h.edits_clearEntry hwrites) ⟨rfl, rfl, rfl⟩
    | mode mode => exact h.1.computation (bne_eq_false_iff_eq.mp hwrites)
    | _ => exact sameComputation_of_eq h ⟨rfl, rfl, rfl⟩
  | operatorSymbol symbol => cases hwrites
  | configure change => exact h.computation (bne_eq_false_iff_eq.mp hwrites)

/-- **Every part of a calculator changes only under its own operations**, whatever the calculator:
the register under the memory keys and where all is cleared; the options other than the mode under a
change of options; the mode under a mode key or a change of options; the tape under equals; and, if
the operation does not end stopped, the computation under operators, equals, a change of the mode to
another, and where all is cleared. -/
theorem perform_frame (c : Calculator) (operation : Operation) :
    (c.writesMemory operation = false → (c.perform operation).memory = c.memory) ∧
      (operation.configures = false →
        (c.perform operation).options =
          { c.options with mode := (c.perform operation).options.mode }) ∧
      (operation.switchesMode = false →
        (c.perform operation).options.mode = c.options.mode) ∧
      (operation ≠ .press .equals → (c.perform operation).tape = c.tape) ∧
      (c.writesComputation operation = false → (c.perform operation).alarm = none →
        c.SameComputation (c.perform operation)) := by
  refine ⟨memory_perform c, options_perform_of_not_configures c, fun hswitches => ?_,
    tape_perform_of_ne c, sameComputation_perform c⟩
  rw [options_perform c hswitches]

end Calculator

end Keypad
