import Keypad.Proofs.Calculator.Recording

/-!
# Repeated equals

Pressed again and again after a result, equals applies the pending operator to the running result
and the operand applied last, or to the running result itself if no operand has been applied yet.
That operand stays the same from then on, although the running result changes.  Every press that
succeeds leaves its entry on the tape; the first that fails stops the calculator, and the presses
after it change nothing.

## Main definitions

* `repeatedResult`: the running result after so many presses
* `Calculator.repeatedEntries`: what these presses leave on the tape

## Main results

* `equals_repeating`: one more press
* `pressAll_equals`: any number of presses
-/

namespace Keypad

/-- The running result after so many presses of equals: each applies the operator to the result
before it and the same right operand, and rounds to places.  The first failure is the outcome. -/
def repeatedResult (places : Nat) (op : Operator) (right first : Binary64) :
    Nat → Except Fault Binary64
  | 0 => .ok first
  | n + 1 => do
    let left ← repeatedResult places op right first n
    (← op.apply left right).accept places

namespace Calculator

/-- The entry that one press of many leaves on the tape, the presses counted from zero; none from
the first failure on. -/
def repeatedEntry? (c : Calculator) (op : Operator) (right first : Binary64) (n : Nat) :
    Option Entry :=
  match repeatedResult c.places op right first n,
    repeatedResult c.places op right first (n + 1) with
  | .ok left, .ok result => some ⟨c.chainText left op right, c.textOf result⟩
  | _, _ => none

/-- The entries that so many presses leave on the tape, in order. -/
def repeatedEntries (c : Calculator) (op : Operator) (right first : Binary64) (n : Nat) :
    List Entry :=
  (List.range n).filterMap (c.repeatedEntry? op right first)

/-- The tape after so many presses. -/
def repeatedTape (c : Calculator) (op : Operator) (right first : Binary64) (n : Nat) : Tape :=
  (c.repeatedEntries op right first n).foldl Tape.push c.tape

/-- The calculator in a chain that awaits a fresh number or another press of equals. -/
def repeating (c : Calculator) (op : Operator) (left : Binary64) (recent : Option Binary64)
    (display : Text) (tape : Tape) : Calculator :=
  { c with
    display := display
    accumulator := some left
    pending := some op
    recent := recent
    fresh := true
    tape := tape }

/-- The calculator after so many presses, at least one. -/
def repeatedly (c : Calculator) (op : Operator) (right first : Binary64) (n : Nat) : Calculator :=
  match repeatedResult c.places op right first n with
  | .ok result =>
    c.repeating op result (some right) (c.textOf result) (c.repeatedTape op right first n)
  | .error fault => ({ c with tape := c.repeatedTape op right first n } : Calculator).stop fault

variable {c : Calculator} {op : Operator} {right first : Binary64}

theorem repeatedResult_succ (c : Calculator) (op : Operator) (right first : Binary64) (n : Nat) :
    repeatedResult c.places op right first (n + 1) =
      (repeatedResult c.places op right first n).bind fun left => c.reduce op left right := rfl

theorem repeatedTape_succ (c : Calculator) (op : Operator) (right first : Binary64) (n : Nat) :
    c.repeatedTape op right first (n + 1) =
      (c.repeatedEntry? op right first n).toList.foldl Tape.push
        (c.repeatedTape op right first n) := by
  unfold repeatedTape repeatedEntries
  rw [List.range_succ, List.filterMap_append, List.foldl_append, List.filterMap_cons,
    List.filterMap_nil]
  cases c.repeatedEntry? op right first n <;> rfl

/-- **One more press** reduces the running result with the operand that is kept, and puts its entry
on the tape or stops the calculator. -/
theorem equals_repeating (hrunning : c.alarm = none) (hmode : c.options.mode = .sequential)
    {n : Nat} {left : Binary64} (hleft : repeatedResult c.places op right first n = .ok left)
    {recent : Option Binary64} (hright : recent.getD left = right) (display : Text) :
    (c.repeating op left recent display (c.repeatedTape op right first n)).equals =
      c.repeatedly op right first (n + 1) := by
  have hbetween : (c.repeating op left recent display
      (c.repeatedTape op right first n)).isStopped = false := isStopped_eq_false hrunning
  have hoperand : (c.repeating op left recent display
      (c.repeatedTape op right first n)).rightOperand? left = some right := congrArg some hright
  have hsucc : repeatedResult c.places op right first (n + 1) = c.reduce op left right := by
    rw [repeatedResult_succ, hleft]
    rfl
  have hreduce : (c.repeating op left recent display
      (c.repeatedTape op right first n)).reduce op left right = c.reduce op left right := rfl
  rw [equals_of_operand hbetween hmode rfl rfl hoperand, hreduce]
  unfold repeatedly
  rw [repeatedTape_succ]
  unfold repeatedEntry?
  rw [hleft, hsucc]
  cases c.reduce op left right <;> rfl

/-- A press after a failure changes nothing, and is no computation either. -/
theorem repeatedly_succ_of_error {n : Nat} {fault : Fault}
    (herror : repeatedResult c.places op right first n = .error fault) :
    c.repeatedly op right first (n + 1) = c.repeatedly op right first n := by
  have hsucc : repeatedResult c.places op right first (n + 1) = .error fault := by
    rw [repeatedResult_succ, herror]
    rfl
  unfold repeatedly
  rw [repeatedTape_succ]
  unfold repeatedEntry?
  rw [herror, hsucc]
  rfl

theorem pressAll_equals_succ (hrunning : c.alarm = none)
    (hmode : c.options.mode = .sequential) (hpending : c.pending = some op)
    (haccumulator : c.accumulator = some first) (hfresh : c.fresh = true)
    (hright : c.recent.getD first = right) (n : Nat) :
    c.pressAll (List.replicate (n + 1) .equals) = c.repeatedly op right first (n + 1) := by
  induction n with
  | zero =>
    -- only at the first press there may be no operand applied yet
    have hbefore :
        c.repeating op first c.recent c.display (c.repeatedTape op right first 0) = c := by
      show c.repeating op first c.recent c.display c.tape = c
      unfold repeating
      rw [← hpending, ← haccumulator, ← hfresh]
    have hfirst : repeatedResult c.places op right first 0 = .ok first := rfl
    have hpress := equals_repeating hrunning hmode hfirst hright c.display
    rw [hbefore] at hpress
    exact hpress
  | succ n ih =>
    rw [List.replicate_succ', pressAll_append, ih]
    cases hresult : repeatedResult c.places op right first (n + 1) with
    | error fault =>
      -- the failure has stopped the calculator
      have hstopped : (c.repeatedly op right first (n + 1)).isStopped = true := by
        unfold repeatedly
        rw [hresult]
        rfl
      rw [repeatedly_succ_of_error hresult]
      exact pressAll_of_stopped hstopped (by simp [Operation.clears])
    | ok left =>
      have hbetween : c.repeatedly op right first (n + 1) =
          c.repeating op left (some right) (c.textOf left)
            (c.repeatedTape op right first (n + 1)) := by
        unfold repeatedly
        rw [hresult]
      rw [hbetween]
      exact equals_repeating hrunning hmode hresult rfl _

/-- **Repeated equals applies the same operand again.**  Take a reachable calculator in a chain with
an operator pending, a running result and a fresh number awaited, and press equals any number of
times, at least once.  The right operand of every press is the one applied last, or the running
result there was at first.  If all the presses succeed, the last result is the running result and
is displayed, the operator stays pending and the operand is kept.  If one fails, the first that does
stops the calculator.  Either way the presses before that have put their entries in front of the
tape, newest first and up to the limit. -/
theorem pressAll_equals (hreachable : Reachable c) (hrunning : c.alarm = none)
    (hmode : c.options.mode = .sequential) (hpending : c.pending = some op)
    (haccumulator : c.accumulator = some first) (hfresh : c.fresh = true) {n : Nat} (hn : 1 ≤ n) :
    let right := c.recent.getD first
    let tape : Tape :=
      ⟨((c.repeatedEntries op right first n).reverse ++ c.tape.entries).take Tape.limit⟩
    c.pressAll (List.replicate n .equals) =
      match repeatedResult c.places op right first n with
      | .ok result =>
        { c with
          display := c.textOf result
          accumulator := some result
          pending := some op
          recent := some right
          fresh := true
          tape := tape }
      | .error fault => ({ c with tape := tape } : Calculator).stop fault := by
  intro right tape
  obtain ⟨n, rfl⟩ := Nat.exists_eq_add_of_le' hn
  have htape : tape = c.repeatedTape op right first (n + 1) := by
    have hentries := Tape.pushAll_entries_of_length_le hreachable.length_tape_le
      (c.repeatedEntries op right first (n + 1))
    exact congrArg Tape.mk hentries.symm
  rw [pressAll_equals_succ hrunning hmode hpending haccumulator hfresh rfl n, htape]
  rfl

/-- `999999 * = = =`: with no operand applied yet the running result is squared; its next product
has too many digits, and the third press comes too late. -/
theorem pressAll_equals_squared :
    let keys := List.replicate 6 (Key.digit '9') ++ [Key.operator .times]
    let c := (make .standard).pressAll keys
    let nines : Binary64 := .ofInt 999999
    Reachable c ∧ c.alarm = none ∧ c.options.mode = .sequential ∧ c.pending = some .times ∧
      c.accumulator = some nines ∧ c.fresh = true ∧ 1 ≤ 3 ∧
      c.pressAll (List.replicate 3 .equals) =
        ({ c with tape := ⟨[⟨"999999 * 999999".toList, "999998000001".toList⟩]⟩ }
          : Calculator).stop .overflow := by
  intro keys c nines
  have hreachable : Reachable c := by
    have hrun := (Reachable.make .standard).performAll (keys.map .press)
    rw [performAll_press] at hrun
    exact hrun
  have hrunning : c.alarm = none := by decide +kernel
  have hmode : c.options.mode = .sequential := by decide +kernel
  have hpending : c.pending = some .times := by decide +kernel
  have haccumulator : c.accumulator = some nines := by decide +kernel
  have hfresh : c.fresh = true := by decide +kernel
  refine ⟨hreachable, hrunning, hmode, hpending, haccumulator, hfresh, by decide, ?_⟩
  rw [pressAll_equals hreachable hrunning hmode hpending haccumulator hfresh (by decide : 1 ≤ 3)]
  decide +kernel

end Calculator

end Keypad
