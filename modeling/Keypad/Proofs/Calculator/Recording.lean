import Keypad.Proofs.Calculator.Frame

/-!
# The tape is the record of a run

Equals records a computation when it has one in hand and does not fail: in a chain, a pending
operator with both its operands; in an expression, what was typed since the last result.  The tape
holds what was recorded, newest first and up to its limit, and nothing else: no other operation
touches it, nor does equals when it fails or has nothing to compute.

## Main definitions

* `Calculator.computation?`: the computation that equals has in hand, as text
* `Calculator.recorded?`: the entry that an operation records
* `Calculator.recordings`: the entries that a run records, in order

## Main results

* `tape_perform`: an operation pushes the entry it records, if any
* `entries_performAll`: after a run the tape holds the newest entries recorded
-/

namespace Keypad

namespace Calculator

/-- The computation that equals has in hand, as text: a pending operator between the running result
and a right operand, or an expression that is being typed. -/
def computation? (c : Calculator) : Option Text :=
  match c.options.mode with
  | .sequential =>
    match c.pending, c.accumulator with
    | some op, some accumulator => (c.rightOperand? accumulator).map (c.chainText accumulator op)
    | _, _ => none
  | .expression => if c.fresh then none else some (withoutBlanks c.buffer)

/-- The entry that an operation records: equals, unless the calculator is stopped before or after,
records the computation it has in hand with the result then displayed. -/
def recorded? (c : Calculator) : Operation → Option Entry
  | .press .equals =>
    if c.isStopped || c.equals.isStopped then none
    else c.computation?.map fun expression => ⟨expression, c.equals.display⟩
  | _ => none

/-- The entries that a run records, in order. -/
def recordings (c : Calculator) : List Operation → List Entry
  | [] => []
  | operation :: rest => (c.recorded? operation).toList ++ (c.perform operation).recordings rest

variable {c next : Calculator}

theorem recordings_cons (c : Calculator) (operation : Operation) (rest : List Operation) :
    c.recordings (operation :: rest) =
      (c.recorded? operation).toList ++ (c.perform operation).recordings rest := rfl

/-! ## Equals -/

/-- A chain is concluded with a new entry if there is a computation in hand. -/
theorem tape_concludeChain (hmode : c.options.mode = .sequential)
    (h : c.concludeChain = .ok next) :
    next.tape =
      match c.computation? with
      | some expression => c.tape.push ⟨expression, next.display⟩
      | none => c.tape := by
  unfold concludeChain at h
  unfold computation?
  rw [hmode]
  -- without both a pending operator and a running result there is no computation
  cases hpending : c.pending with
  | none =>
    rw [hpending] at h
    cases h
    rfl
  | some op =>
    cases haccumulator : c.accumulator with
    | none =>
      rw [hpending, haccumulator] at h
      cases h
      rfl
    | some accumulator =>
      rw [hpending, haccumulator] at h
      dsimp only at h ⊢
      cases hright : c.rightOperand? accumulator with
      | none =>
        rw [hright] at h
        cases h
        rfl
      | some right =>
        rw [hright] at h
        obtain ⟨result, -, h⟩ := bind_eq_ok_iff.mp h
        cases h
        rfl

/-- An expression is concluded with a new entry if it is being typed. -/
theorem tape_concludeExpression (hmode : c.options.mode = .expression)
    (h : c.concludeExpression = .ok next) :
    next.tape =
      match c.computation? with
      | some expression => c.tape.push ⟨expression, next.display⟩
      | none => c.tape := by
  unfold concludeExpression at h
  unfold computation?
  rw [hmode]
  dsimp only
  split at h
  · rename_i hfresh
    cases h
    rw [if_pos hfresh]
  · rename_i hfresh
    obtain ⟨_, -, h⟩ := bind_eq_ok_iff.mp h
    obtain ⟨result, -, h⟩ := bind_eq_ok_iff.mp h
    cases h
    rw [if_neg hfresh]
    rfl

/-- Equals records what it concludes, and nothing if it fails. -/
theorem tape_equals_of_orStop (hrunning : c.isStopped = false)
    {outcome : Except Fault Calculator} (hequals : c.equals = c.orStop outcome)
    (hconcludes : ∀ next, outcome = .ok next → c.Concludes next)
    (htape : ∀ next, outcome = .ok next → next.tape =
      match c.computation? with
      | some expression => c.tape.push ⟨expression, next.display⟩
      | none => c.tape) :
    c.equals.tape =
      match c.recorded? (.press .equals) with
      | some entry => c.tape.push entry
      | none => c.tape := by
  unfold recorded?
  cases outcome with
  | error fault =>
    rw [hequals, hrunning]
    rfl
  | ok next =>
    have hnext : c.equals = next := hequals
    have hkept : next.isStopped = c.isStopped :=
      (congrArg isStopped (hconcludes next rfl)).trans rfl
    rw [hnext, hkept, hrunning, htape next rfl]
    cases c.computation? <;> rfl

theorem tape_equals (c : Calculator) :
    c.equals.tape =
      match c.recorded? (.press .equals) with
      | some entry => c.tape.push entry
      | none => c.tape := by
  cases hstopped : c.isStopped with
  | true =>
    have hequals : c.equals = c := whenRunning_of_stopped hstopped _
    unfold recorded?
    rw [hequals, hstopped]
    rfl
  | false =>
    cases hmode : c.options.mode with
    | sequential =>
      exact tape_equals_of_orStop hstopped (equals_of_sequential hstopped hmode)
        (fun _ => concludes_concludeChain) (fun _ => tape_concludeChain hmode)
    | expression =>
      exact tape_equals_of_orStop hstopped (equals_of_expression hstopped hmode)
        (fun _ => concludes_concludeExpression) (fun _ => tape_concludeExpression hmode)

/-! ## Runs -/

/-- **An operation pushes the entry it records**, and leaves the tape alone if it records none. -/
theorem tape_perform (c : Calculator) (operation : Operation) :
    (c.perform operation).tape =
      match c.recorded? operation with
      | some entry => c.tape.push entry
      | none => c.tape := by
  by_cases hequals : operation = .press .equals
  · subst hequals
    exact tape_equals c
  · have hnone : c.recorded? operation = none := by
      unfold recorded?
      split
      · exact absurd rfl hequals
      · rfl
    rw [hnone]
    exact tape_perform_of_ne c hequals

/-- After a run the recorded entries have been pushed in order. -/
theorem tape_performAll (c : Calculator) (operations : List Operation) :
    (c.performAll operations).tape = (c.recordings operations).foldl Tape.push c.tape := by
  induction operations generalizing c with
  | nil => rfl
  | cons operation rest ih =>
    rw [performAll_cons, ih, tape_perform, recordings_cons, List.foldl_append]
    cases c.recorded? operation <;> rfl

/-- The tapes of reachable calculators stay within the limit. -/
theorem Reachable.length_tape_le (h : Reachable c) : c.tape.entries.length ≤ Tape.limit := by
  refine h.of_step (P := fun c => c.tape.entries.length ≤ Tape.limit)
    (fun _ => Nat.zero_le _) fun c operation hc => ?_
  rw [tape_perform]
  split
  · exact Tape.length_push_le _ _
  · exact hc

/-- **The tape holds exactly the newest computations recorded.**  After any run from a calculator
just switched on, it holds what equals has recorded on the way, newest first and up to the limit.
A further operation puts its own entry in front if it records one, and otherwise leaves the tape
as it is. -/
theorem entries_performAll (options : Options) (operations : List Operation) :
    let c := (make options).performAll operations
    c.tape.entries = ((make options).recordings operations).reverse.take Tape.limit ∧
      ∀ operation, (c.perform operation).tape =
        match c.recorded? operation with
        | some entry => c.tape.push entry
        | none => c.tape := by
  refine ⟨?_, tape_perform _⟩
  have hmade : (make options).tape.entries.length ≤ Tape.limit := Nat.zero_le _
  rw [tape_performAll, Tape.pushAll_entries_of_length_le hmade]
  exact congrArg _ (List.append_nil _)

/-- Equals records in both modes, not when it has nothing to compute, and not when it fails. -/
example :
    (make .standard).recordings
      ([.digit '5', .equals, .operator .plus, .digit '2', .equals, .equals, .operator .over,
        .digit '0', .equals, .clearAll, .mode .expression, .digit '6', .operator .times,
        .openParenthesis, .digit '1', .operator .plus, .digit '2', .closeParenthesis, .equals,
        .equals].map .press) =
      [⟨"5 + 2".toList, "7".toList⟩, ⟨"7 + 2".toList, "9".toList⟩,
        ⟨"6*(1+2)".toList, "18".toList⟩] := by
  decide +kernel

end Calculator

end Keypad
