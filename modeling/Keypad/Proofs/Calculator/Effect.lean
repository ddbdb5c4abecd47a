import Keypad.Proofs.Calculator.Stopped
import Keypad.Proofs.Outcome

/-!
# Effects of operations

What each operation may change.  An operation that fails stops the calculator as it was before,
whatever it had computed by then.  Any other operation writes its own part of the calculator and
leaves the rest: the keys that type and edit write the display, the memory keys the register, the
operators and equals the computation, and equals the tape as well.

## Main definitions

* `Calculator.Edits`, `Remembers`, `Computes`, `Concludes`, `Reconfigures`: the kinds of effect
* `Calculator.Effect`: the effect an operation has unless it fails
* `Operation.canFail`: the operations that can fail

## Main results

* `perform_effect`: an operation has its effect, or is one that can fail and stops the calculator
* `edits_digit`, `edits_point`, …: the keys that type and edit do no more than that
-/

namespace Keypad

/-- Whether an operation can stop a running calculator. -/
def Operation.canFail : Operation → Bool
  | .press (.digit d) => !d.isDigit
  | .press (.operator _) => true
  | .press .equals => true
  | .press .percent => true
  | .press .addTax => true
  | .press .removeTax => true
  | .press .addToMemory => true
  | .press .subtractFromMemory => true
  | .operatorSymbol _ => true
  | _ => false

namespace Calculator

/-! ## Kinds of effect -/

/-- The same computation is under way. -/
structure SameComputation (c next : Calculator) : Prop where
  accumulator : next.accumulator = c.accumulator
  pending : next.pending = c.pending
  recent : next.recent = c.recent

/-- Only what is displayed has changed, and whether a fresh number is awaited. -/
def Edits (c next : Calculator) : Prop :=
  next = { c with display := next.display, fresh := next.fresh }

/-- Only the memory register has changed. -/
def Remembers (c next : Calculator) : Prop := next = { c with memory := next.memory }

/-- Only the computation and what is displayed have changed. -/
def Computes (c next : Calculator) : Prop :=
  next =
    { c with
      display := next.display
      accumulator := next.accumulator
      pending := next.pending
      recent := next.recent
      fresh := next.fresh }

/-- Beside the operands of the computation and what is displayed, only the tape has changed. -/
def Concludes (c next : Calculator) : Prop :=
  next =
    { c with
      display := next.display
      accumulator := next.accumulator
      recent := next.recent
      fresh := next.fresh
      tape := next.tape }

/-- Only options have changed, and with the mode the computation and what is displayed. -/
structure Reconfigures (c : Calculator) (mode : Mode) (next : Calculator) : Prop where
  frame : next =
    { c with
      display := next.display
      accumulator := next.accumulator
      pending := next.pending
      recent := next.recent
      fresh := next.fresh
      options := next.options }
  /-- In the mode there was, the computation goes on. -/
  computation : mode = c.options.mode → c.SameComputation next

/-- The effect of an operation that does not fail. -/
def Effect (c : Calculator) : Operation → Calculator → Prop
  | .press (.operator _), next => c.Computes next
  | .press .equals, next => c.Concludes next
  | .press .clearEntry, next => if c.isStopped then next = c.clearAll else c.Edits next
  | .press .clearAll, next => next = c.clearAll
  | .press .storeMemory, next => c.Remembers next
  | .press .addToMemory, next => c.Remembers next
  | .press .subtractFromMemory, next => c.Remembers next
  | .press .emptyMemory, next => c.Remembers next
  | .press (.mode mode), next =>
    c.Reconfigures mode next ∧ next.options = { c.options with mode := next.options.mode }
  | .operatorSymbol _, next => c.Computes next
  | .configure change, next => c.Reconfigures (change.mode.getD c.options.mode) next
  | _, next => c.Edits next

/-- The calculator has been stopped as it was. -/
def Fails (c next : Calculator) : Prop := ∃ fault, next = c.stop fault

variable {c next : Calculator}

theorem edits_self (c : Calculator) : c.Edits c := rfl

theorem edits_trans {middle : Calculator} (hfirst : c.Edits middle) (hsecond : middle.Edits next) :
    c.Edits next := by
  unfold Edits at hfirst hsecond ⊢
  rw [hsecond, hfirst]

theorem sameComputation_self (c : Calculator) : c.SameComputation c := ⟨rfl, rfl, rfl⟩

theorem reconfigures_self (c : Calculator) (mode : Mode) : c.Reconfigures mode c :=
  ⟨rfl, fun _ => sameComputation_self c⟩

theorem fails_stop (c : Calculator) (fault : Fault) : c.Fails (c.stop fault) := ⟨fault, rfl⟩

/-- What holds of a calculator and of what an operation makes of it while it runs holds after the
operation. -/
theorem whenRunning_cases {P : Calculator → Prop} (hc : P c) (hnext : P next) :
    P (c.whenRunning next) := by
  unfold whenRunning
  split
  · exact hc
  · exact hnext

/-- The outcome of a computation is a failure, or what the computation leads to. -/
theorem fails_or_of_orStop {P : Calculator → Prop} {outcome : Except Fault Calculator}
    (hnext : ∀ next, outcome = .ok next → P next) :
    c.Fails (c.orStop outcome) ∨ P (c.orStop outcome) := by
  cases outcome with
  | ok next => exact Or.inr (hnext next rfl)
  | error fault => exact Or.inl (fails_stop c fault)

/-! ## Typing and editing -/

theorem edits_typing (c : Calculator) (t : Text) : c.Edits (c.typing t) := rfl

theorem edits_awaiting (c : Calculator) : c.Edits c.awaiting := rfl

theorem edits_enter (c : Calculator) (t : Text) : c.Edits (c.enter t) := by
  unfold enter
  split
  · exact edits_typing c t
  · exact edits_typing c _

theorem edits_typeDigit (c : Calculator) (d : Char) : c.Edits (c.typeDigit d) := by
  unfold typeDigit
  split
  · exact edits_typing c _
  split
  · exact edits_self c
  split
  · exact edits_self c
  split
  · exact edits_typing c _
  · exact edits_typing c _

theorem edits_digit (c : Calculator) {d : Char} (hd : d.isDigit = true) :
    c.Edits (c.digit d) := by
  unfold Calculator.digit
  rw [hd]
  refine whenRunning_cases (edits_self c) ?_
  cases c.options.mode with
  | sequential => exact edits_typeDigit c d
  | expression => exact edits_enter c [d]

/-- A digit key that delivers another character stops a running calculator. -/
theorem digit_effect (c : Calculator) {d : Char} (hd : d.isDigit = false) :
    c.Fails (c.digit d) ∨ c.Edits (c.digit d) := by
  unfold Calculator.digit
  rw [hd]
  exact whenRunning_cases (P := fun next => c.Fails next ∨ c.Edits next) (Or.inr (edits_self c))
    (Or.inl (fails_stop c _))

theorem edits_pointInNumber (c : Calculator) : c.Edits c.pointInNumber := by
  unfold pointInNumber
  split
  · exact edits_typing c _
  split
  · exact edits_self c
  · exact edits_typing c _

theorem edits_pointInExpression (c : Calculator) : c.Edits c.pointInExpression := by
  unfold pointInExpression
  split
  · exact edits_self c
  · exact edits_typing c _

theorem edits_point (c : Calculator) : c.Edits c.point := by
  refine whenRunning_cases (edits_self c) ?_
  split
  · exact edits_typing c _
  cases c.options.mode with
  | sequential => exact edits_pointInNumber c
  | expression => exact edits_pointInExpression c

theorem edits_changeSign (c : Calculator) : c.Edits c.changeSign := by
  refine whenRunning_cases (edits_self c) ?_
  split
  · exact edits_self c
  · exact rfl

theorem edits_backspace (c : Calculator) : c.Edits c.backspace := by
  refine whenRunning_cases (edits_self c) ?_
  split
  · exact edits_self c
  split
  · exact edits_awaiting c
  · exact rfl

theorem edits_parenthesis (c : Calculator) (opening : Bool) :
    c.Edits (c.parenthesis opening) := by
  refine whenRunning_cases (edits_self c) ?_
  cases c.options.mode with
  | sequential => exact edits_self c
  | expression =>
    cases opening with
    | true => exact edits_enter c ['(']
    | false => exact edits_typing c _

theorem edits_recallMemory (c : Calculator) : c.Edits c.recallMemory := by
  refine whenRunning_cases (edits_self c) ?_
  split
  · exact edits_self c
  cases c.options.mode with
  | sequential => exact rfl
  | expression => exact edits_enter c _

theorem convert_effect (c : Calculator) (places : Nat) (f : Binary64 → Except Fault Binary64) :
    c.Fails (c.convert places f) ∨ c.Edits (c.convert places f) := by
  refine whenRunning_cases (P := fun next => c.Fails next ∨ c.Edits next)
    (Or.inr (edits_self c)) (fails_or_of_orStop fun next hnext => ?_)
  obtain ⟨current, -, hnext⟩ := bind_eq_ok_iff.mp hnext
  cases current with
  | none =>
    cases hnext
    exact edits_self c
  | some current =>
    obtain ⟨_, -, hnext⟩ := bind_eq_ok_iff.mp hnext
    obtain ⟨_, -, hnext⟩ := bind_eq_ok_iff.mp hnext
    cases hnext
    exact edits_typing c _

/-! ## The computation -/

theorem computes_advanceChain {op : Operator} (h : c.advanceChain op = .ok next) :
    c.Computes next := by
  unfold advanceChain at h
  split at h
  · cases h
    exact rfl
  split at h
  · split at h
    · cases h
      exact rfl
    · obtain ⟨reduced, -, h⟩ := bind_eq_ok_iff.mp h
      cases h
      exact rfl
  · cases h
    exact rfl
  · cases h
    exact rfl

theorem operator_effect (c : Calculator) (op : Operator) :
    c.Fails (c.operator op) ∨ c.Computes (c.operator op) := by
  refine whenRunning_cases (P := fun next => c.Fails next ∨ c.Computes next)
    (Or.inr rfl) ?_
  cases c.options.mode with
  | sequential => exact fails_or_of_orStop fun _ h => computes_advanceChain h
  | expression => exact Or.inr rfl

theorem operatorSymbol_effect (c : Calculator) (symbol : Char) :
    c.Fails (c.operatorSymbol symbol) ∨ c.Computes (c.operatorSymbol symbol) := by
  refine whenRunning_cases (P := fun next => c.Fails next ∨ c.Computes next)
    (Or.inr rfl) ?_
  cases Operator.ofSymbol? symbol with
  | none => exact Or.inl (fails_stop c _)
  | some op => exact operator_effect c op

theorem concludes_concludeChain (h : c.concludeChain = .ok next) : c.Concludes next := by
  unfold concludeChain at h
  split at h
  · split at h
    · cases h
      exact rfl
    · obtain ⟨result, -, h⟩ := bind_eq_ok_iff.mp h
      cases h
      exact rfl
  · cases h
    exact rfl

theorem concludes_concludeExpression (h : c.concludeExpression = .ok next) :
    c.Concludes next := by
  unfold concludeExpression at h
  split at h
  · cases h
    exact rfl
  · obtain ⟨_, -, h⟩ := bind_eq_ok_iff.mp h
    obtain ⟨result, -, h⟩ := bind_eq_ok_iff.mp h
    cases h
    exact rfl

theorem equals_effect (c : Calculator) : c.Fails c.equals ∨ c.Concludes c.equals := by
  refine whenRunning_cases (P := fun next => c.Fails next ∨ c.Concludes next)
    (Or.inr rfl) ?_
  cases c.options.mode with
  | sequential => exact fails_or_of_orStop fun _ h => concludes_concludeChain h
  | expression => exact fails_or_of_orStop fun _ h => concludes_concludeExpression h

/-! ## Memory, mode and options -/

theorem remembers_storeMemory (c : Calculator) : c.Remembers c.storeMemory := by
  refine whenRunning_cases rfl ?_
  split
  · exact rfl
  · exact rfl

theorem accumulate_effect (c : Calculator) (factor : Binary64) :
    c.Fails (c.accumulate factor) ∨ c.Remembers (c.accumulate factor) := by
  refine whenRunning_cases (P := fun next => c.Fails next ∨ c.Remembers next)
    (Or.inr rfl) ?_
  split
  · exact Or.inr rfl
  split
  · exact Or.inr rfl
  · exact Or.inl (fails_stop c _)

theorem remembers_emptyMemory (c : Calculator) : c.Remembers c.emptyMemory :=
  whenRunning_cases rfl rfl

theorem reconfigures_switchMode (c : Calculator) (mode : Mode) :
    c.Reconfigures mode (c.switchMode mode) := by
  refine whenRunning_cases (reconfigures_self c mode) ?_
  split
  · exact reconfigures_self c mode
  · rename_i hmode
    exact ⟨rfl, fun h => absurd h.symm hmode⟩

theorem options_switchMode (c : Calculator) (mode : Mode) :
    (c.switchMode mode).options =
      { c.options with mode := (c.switchMode mode).options.mode } := by
  refine whenRunning_cases
    (P := fun next => next.options = { c.options with mode := next.options.mode }) rfl ?_
  split
  · exact rfl
  · exact rfl

theorem reconfigures_configure (c : Calculator) (change : OptionsChange) :
    c.Reconfigures (change.mode.getD c.options.mode) (c.configure change) := by
  refine whenRunning_cases (reconfigures_self c _) ?_
  dsimp only
  cases change.mode with
  | none => exact ⟨rfl, fun _ => ⟨rfl, rfl, rfl⟩⟩
  | some mode =>
    -- the mode is switched with the other options changed already, and they stay changed
    obtain ⟨hframe, hcomputation⟩ := reconfigures_switchMode
      { c with options := c.options.change { change with mode := none } } mode
    refine ⟨hframe, fun hmode => ?_⟩
    obtain ⟨haccumulator, hpending, hrecent⟩ := hcomputation hmode
    exact ⟨haccumulator, hpending, hrecent⟩

/-! ## All operations -/

/-- **Every operation fails as a whole or has its own effect.**  One that fails is one of those that
can, and it stops the calculator as it was. -/
theorem perform_effect (c : Calculator) (operation : Operation) :
    (operation.canFail = true ∧ c.Fails (c.perform operation)) ∨
      c.Effect operation (c.perform operation) := by
  cases operation with
  | press key =>
    cases key with
    | digit d =>
      cases hd : d.isDigit with
      | true => exact Or.inr (edits_digit c hd)
      | false =>
        have hcan : (Operation.press (.digit d)).canFail = true := congrArg not hd
        exact (digit_effect c hd).imp_left (And.intro hcan)
    | point => exact Or.inr (edits_point c)
    | operator op => exact (operator_effect c op).imp_left (And.intro rfl)
    | equals => exact (equals_effect c).imp_left (And.intro rfl)
    | percent => exact (convert_effect c _ _).imp_left (And.intro rfl)
    | addTax => exact (convert_effect c _ _).imp_left (And.intro rfl)
    | removeTax => exact (convert_effect c _ _).imp_left (And.intro rfl)
    | changeSign => exact Or.inr (edits_changeSign c)
    | backspace => exact Or.inr (edits_backspace c)
    | clearEntry =>
      refine Or.inr ?_
      show if c.isStopped then c.clearEntry = c.clearAll else c.Edits c.clearEntry
      unfold clearEntry
      split
      · exact rfl
      · exact edits_awaiting c
    | clearAll => exact Or.inr rfl
    | storeMemory => exact Or.inr (remembers_storeMemory c)
    | recallMemory => exact Or.inr (edits_recallMemory c)
    | addToMemory => exact (accumulate_effect c _).imp_left (And.intro rfl)
    | subtractFromMemory => exact (accumulate_effect c _).imp_left (And.intro rfl)
    | emptyMemory => exact Or.inr (remembers_emptyMemory c)
    | openParenthesis => exact Or.inr (edits_parenthesis c true)
    | closeParenthesis => exact Or.inr (edits_parenthesis c false)
    | mode mode => exact Or.inr ⟨reconfigures_switchMode c mode, options_switchMode c mode⟩
  | operatorSymbol symbol => exact (operatorSymbol_effect c symbol).imp_left (And.intro rfl)
  | configure change => exact Or.inr (reconfigures_configure c change)

/-- Clearing the entry of a running calculator is an edit. -/
theorem Effect.edits_clearEntry (h : c.Effect (.press .clearEntry) next)
    (hrunning : c.isStopped = false) : c.Edits next := by
  simpa [Effect, hrunning] using h

end Calculator

end Keypad
