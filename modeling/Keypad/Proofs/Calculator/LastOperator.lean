import Keypad.Proofs.Calculator.Stopped
import Keypad.Proofs.Display.ExponentForm
import Keypad.Proofs.Outcome

/-!
# The last of several operators

In sequential mode an operator key reduces what is pending if an operand was typed, or else leaves
the running result as it is, with the display for it where there is none yet; then its operator is
pending.  It does nothing on a display that is no number, and stops where the reduction fails.  All
of this but the operator is the same for every operator, and leaves the next one no more to do than
to take the place of the one before: a reduced result is written so that it can be read, and with
no operand typed since there is nothing to reduce.

## Main definitions

* `Calculator.reduction?`: the reduction that an operator key makes, with its outcome
* `Calculator.reductions`: the reductions that a run of operator keys makes
* `Calculator.Advance`: what an operator key can do

## Main results

* `exists_advance`: nothing else is done by an operator key
* `operator_operator`: one more operator key finds nothing to reduce
* `operator_lastWins`: of several operators in a row the last one counts, and they reduce at most
  once
-/

namespace Keypad

namespace Calculator

variable {c : Calculator}

/-- The reduction that an operator key makes, with its outcome: of what is pending, with the operand
that was typed. -/
def reduction? (c : Calculator) : Option (Except Fault Binary64) :=
  if c.isStopped || c.options.mode == .expression || c.fresh then none
  else
    match c.value?, c.pending, c.accumulator with
    | some current, some pending, some accumulator => some (c.reduce pending accumulator current)
    | _, _, _ => none

/-- The reductions that a run of operator keys makes, in order. -/
def reductions (c : Calculator) : List Operator → List (Except Fault Binary64)
  | [] => []
  | op :: rest => c.reduction?.toList ++ (c.operator op).reductions rest

/-- What an operator key can do in sequential mode, as a function of its operator. -/
inductive Advance (c : Calculator) : (Operator → Calculator) → Prop where
  | idle : c.reduction? = none → Advance c fun _ => c
  | stops {fault : Fault} : c.reduction? = some (.error fault) → Advance c fun _ => c.stop fault
  | reduces {x : Binary64} : c.reduction? = some (.ok x) →
    Advance c fun op => { c with accumulator := some x, display := c.textOf x }.awaitOperand op
  | keeps {current : Binary64} : c.reduction? = none → c.value? = some current →
    Advance c fun op =>
      { c with accumulator := some (c.accumulator.getD current) }.awaitOperand op

/-! ## One operator key -/

theorem reduction?_of_stopped (h : c.isStopped = true) : c.reduction? = none := by
  rw [reduction?, h]
  rfl

/-- Without all that a reduction takes there is none. -/
theorem reduction?_eq_none (h : c.value? = none ∨ c.pending = none ∨ c.accumulator = none ∨
    c.fresh = true) : c.reduction? = none := by
  unfold reduction?
  split
  · rfl
  · rename_i hready
    split
    · simp_all
    · rfl

theorem reduction?_of_operand (hrunning : c.isStopped = false)
    (hmode : c.options.mode = .sequential) {current accumulator : Binary64} {pending : Operator}
    (hvalue : c.value? = some current) (hpending : c.pending = some pending)
    (haccumulator : c.accumulator = some accumulator) (hfresh : c.fresh = false) :
    c.reduction? = some (c.reduce pending accumulator current) := by
  rw [reduction?, hrunning, hmode, hfresh, hvalue, hpending, haccumulator]
  rfl

theorem advanceChain_of_operand {current accumulator : Binary64} {pending : Operator}
    (hvalue : c.value? = some current) (hpending : c.pending = some pending)
    (haccumulator : c.accumulator = some accumulator) (hfresh : c.fresh = false) (op : Operator) :
    c.advanceChain op = (c.reduce pending accumulator current).map fun x =>
      { c with accumulator := some x, display := c.textOf x }.awaitOperand op := by
  simp only [advanceChain, hvalue, hpending, haccumulator, hfresh, Bool.false_eq_true, if_false]
  cases c.reduce pending accumulator current <;> rfl

theorem accumulator_getD {accumulator : Binary64} (h : c.accumulator = some accumulator)
    (current : Binary64) : { c with accumulator := some (c.accumulator.getD current) } = c := by
  rw [h, Option.getD_some, ← h]

/-- With nothing to reduce the running result stays, or is the display where there is none yet. -/
theorem advanceChain_of_keeps {current : Binary64} (hvalue : c.value? = some current)
    (h : c.pending = none ∨ c.accumulator = none ∨ c.fresh = true) (op : Operator) :
    c.advanceChain op =
      .ok ({ c with accumulator := some (c.accumulator.getD current) }.awaitOperand op) := by
  cases haccumulator : c.accumulator with
  | none =>
    rw [advanceChain, hvalue, haccumulator]
    cases c.pending <;> rfl
  | some accumulator =>
    rw [← haccumulator, accumulator_getD haccumulator, advanceChain, hvalue, haccumulator]
    cases hpending : c.pending with
    | none => rfl
    | some pending =>
      have hfresh : c.fresh = true := by simpa [hpending, haccumulator] using h
      exact if_pos hfresh

theorem operator_of_sequential (hrunning : c.isStopped = false)
    (hmode : c.options.mode = .sequential) (op : Operator) :
    c.operator op = c.orStop (c.advanceChain op) := by
  rw [operator, whenRunning_of_running hrunning, hmode]

theorem operator_of_stopped (h : c.isStopped = true) (op : Operator) : c.operator op = c :=
  whenRunning_of_stopped h _

/-- **All that an operator key can do.** -/
theorem exists_advance (hrunning : c.isStopped = false) (hmode : c.options.mode = .sequential) :
    ∃ next, Advance c next ∧ ∀ op, c.operator op = next op := by
  simp only [operator_of_sequential hrunning hmode]
  cases hvalue : c.value? with
  | none =>
    have hidle : ∀ op, c.advanceChain op = .ok c := by
      intro op
      rw [advanceChain, hvalue]
    exact ⟨_, .idle (reduction?_eq_none (Or.inl hvalue)), fun op => by rw [hidle, orStop_ok]⟩
  | some current =>
    by_cases hkeeps : c.pending = none ∨ c.accumulator = none ∨ c.fresh = true
    · refine ⟨_, .keeps (reduction?_eq_none (Or.inr hkeeps)) hvalue, fun op => ?_⟩
      rw [advanceChain_of_keeps hvalue hkeeps, orStop_ok]
    · -- all that a reduction takes is there
      simp only [not_or, Bool.not_eq_true] at hkeeps
      obtain ⟨hpending, haccumulator, hfresh⟩ := hkeeps
      obtain ⟨pending, hpending⟩ := Option.ne_none_iff_exists'.mp hpending
      obtain ⟨accumulator, haccumulator⟩ := Option.ne_none_iff_exists'.mp haccumulator
      have hreduction := reduction?_of_operand hrunning hmode hvalue hpending haccumulator hfresh
      simp only [advanceChain_of_operand hvalue hpending haccumulator hfresh]
      cases houtcome : c.reduce pending accumulator current with
      | error fault =>
        rw [houtcome] at hreduction
        exact ⟨_, .stops hreduction, fun _ => rfl⟩
      | ok x =>
        rw [houtcome] at hreduction
        exact ⟨_, .reduces hreduction, fun _ => rfl⟩

/-! ## One more operator key -/

/-- What is reduced is accepted, so it can be read once it is written. -/
theorem isSome_readDisplay?_of_reduction? {x : Binary64} (h : c.reduction? = some (.ok x)) :
    (readDisplay? (c.textOf x)).isSome = true := by
  unfold reduction? at h
  split at h
  · cases h
  split at h
  · -- the places that a result is accepted with are the places that it is written with
    obtain ⟨value, -, haccept⟩ := bind_eq_ok_iff.mp (Option.some.inj h)
    have hstyle : value.accept c.style.places = .ok x := haccept
    exact Style.isSome_readDisplay?_of_accept hstyle
  · cases h

/-- An operator that was just left pending is replaced. -/
theorem operator_awaitOperand (hrunning : c.isStopped = false)
    (hmode : c.options.mode = .sequential) (hvalue : c.value?.isSome = true)
    (haccumulator : c.accumulator.isSome = true) (x y : Operator) :
    (c.awaitOperand x).operator y = c.awaitOperand y := by
  obtain ⟨current, hcurrent⟩ := Option.isSome_iff_exists.mp hvalue
  obtain ⟨accumulator, haccumulator⟩ := Option.isSome_iff_exists.mp haccumulator
  have hawaiting : (c.awaitOperand x).isStopped = false := hrunning
  have hsequential : (c.awaitOperand x).options.mode = .sequential := hmode
  have hadvance : (c.awaitOperand x).advanceChain y = .ok (c.awaitOperand y) := by
    have hkeeps := advanceChain_of_keeps (c := c.awaitOperand x) hcurrent (Or.inr (Or.inr rfl)) y
    rwa [accumulator_getD (c := c.awaitOperand x) haccumulator] at hkeeps
  rw [operator_of_sequential hawaiting hsequential, hadvance, orStop_ok]

/-- **One more operator key** finds what the one before it left, whatever that did, and has no more
to do than to replace the operator; and it finds nothing to reduce. -/
theorem operator_operator (hmode : c.options.mode = .sequential) (x : Operator) :
    (∀ y, (c.operator x).operator y = c.operator y) ∧ (c.operator x).reduction? = none ∧
      (c.operator x).options.mode = .sequential := by
  cases hrunning : c.isStopped with
  | true =>
    have hsame : ∀ op, c.operator op = c := operator_of_stopped hrunning
    rw [hsame x]
    exact ⟨fun _ => rfl, reduction?_of_stopped hrunning, hmode⟩
  | false =>
    obtain ⟨next, hadvance, hnext⟩ := exists_advance hrunning hmode
    have hawaits : ∀ d : Calculator, (d.awaitOperand x).reduction? = none :=
      fun _ => reduction?_eq_none (Or.inr (Or.inr (Or.inr rfl)))
    simp only [hnext]
    -- neither an idle nor a stopped calculator is changed by any operator; in the other two cases
    -- the number on the display is one that the next key reads
    cases hadvance with
    | idle hreduction => exact ⟨hnext, hreduction, hmode⟩
    | stops hreduction =>
      exact ⟨fun _ => operator_of_stopped rfl _, reduction?_of_stopped rfl, hmode⟩
    | @reduces result hreduction =>
      have hshown := isSome_readDisplay?_of_reduction? hreduction
      exact ⟨fun y => operator_awaitOperand (c := { c with
        accumulator := some result, display := c.textOf result }) hrunning hmode hshown rfl x y,
        hawaits _, hmode⟩
    | @keeps current hreduction hvalue =>
      have hshown : c.value?.isSome = true := Option.isSome_of_eq_some hvalue
      exact ⟨fun y => operator_awaitOperand (c := { c with
        accumulator := some (c.accumulator.getD current) }) hrunning hmode hshown rfl x y,
        hawaits _, hmode⟩

/-! ## A run of operator keys -/

theorem pressAll_operators (hmode : c.options.mode = .sequential) (ops : List Operator)
    (op : Operator) : c.pressAll ((ops ++ [op]).map .operator) = c.operator op := by
  induction ops generalizing c with
  | nil => rfl
  | cons x rest ih =>
    -- the keys after the first act as the last of them, and that one replaces the first
    obtain ⟨hreplaced, -, hkept⟩ := operator_operator hmode x
    exact (ih hkept).trans (hreplaced op)

theorem reductions_of_none (hmode : c.options.mode = .sequential) (h : c.reduction? = none)
    (ops : List Operator) : c.reductions ops = [] := by
  induction ops generalizing c with
  | nil => rfl
  | cons x rest ih =>
    obtain ⟨-, hnone, hkept⟩ := operator_operator hmode x
    rw [reductions, h, ih hkept hnone]
    rfl

/-- **The last operator counts.**  In sequential mode an operator key right after another leads to
the same calculator as alone, also where the first one stopped the calculator.  So a run of operator
keys acts as its last one, and makes no reduction but the one that its first key makes, if any. -/
theorem operator_lastWins (c : Calculator) (hmode : c.options.mode = .sequential) :
    (∀ x y : Operator, (c.operator x).operator y = c.operator y) ∧
      ∀ (ops : List Operator) (op : Operator),
        c.pressAll ((ops ++ [op]).map .operator) = c.operator op ∧
          c.reductions (ops ++ [op]) = c.reduction?.toList := by
  refine ⟨fun x => (operator_operator hmode x).1, fun ops op =>
    ⟨pressAll_operators hmode ops op, ?_⟩⟩
  obtain ⟨first, rest, hcons⟩ : ∃ first rest, ops ++ [op] = first :: rest :=
    List.exists_cons_of_ne_nil (by simp)
  obtain ⟨-, hnone, hkept⟩ := operator_operator hmode first
  rw [hcons, reductions, reductions_of_none hkept hnone, List.append_nil]

/-- After `7/2` the first of several operators reduces the quotient. -/
theorem operator_lastWins_quotient :
    let c := (make Options.standard).pressAll [.digit '7', .operator .over, .digit '2']
    c.options.mode = .sequential ∧
      (c.operator .plus).operator .times = c.operator .times ∧
      c.pressAll [.operator .minus, .operator .plus, .operator .times] = c.operator .times ∧
      c.reductions [.minus, .plus, .times] = [.ok (Decimal.toBinary64 ⟨false, 35, -1⟩)] := by
  intro c
  have hmode : c.options.mode = .sequential := by decide +kernel
  obtain ⟨htwo, hrun⟩ := operator_lastWins c hmode
  obtain ⟨hlast, honce⟩ := hrun [.minus, .plus] .times
  refine ⟨hmode, htwo .plus .times, hlast, honce.trans ?_⟩
  decide +kernel

end Calculator

end Keypad
