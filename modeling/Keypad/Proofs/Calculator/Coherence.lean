import Keypad.Proofs.Calculator.Effect

/-!
# Coherence of the registers

The registers of a calculator depend on each other, on the mode and on the alarm, and hold
finite values only.  This is so when the calculator is switched on, and every operation keeps it.

By their effects, most operations of a running calculator change what it shows and nothing that
coherence speaks of; the others either stop it or belong to a chain, to the memory or to the
options, and are followed one by one.

## Main definitions

* `Calculator.IsIdle`: no computation is under way
* `Calculator.Coherent`
* `Calculator.Shows`: a running calculator that differs from another in what it shows

## Main results

* `Coherent.perform`: every operation keeps coherence
* `Reachable.coherent`, `coherent_performAll`: reachable calculators are coherent
-/

namespace Keypad

namespace Calculator

/-- No computation is under way. -/
structure IsIdle (c : Calculator) : Prop where
  accumulator : c.accumulator = none
  pending : c.pending = none
  recent : c.recent = none

/-- A value a register holds is finite. -/
def IsFiniteRegister (register : Option Binary64) : Prop :=
  ∀ x, register = some x → x.isFinite = true

/-- What the registers of a calculator owe to each other, to its mode and to its alarm. -/
structure Coherent (c : Calculator) : Prop where
  accumulator_of_pending : c.pending.isSome = true → c.accumulator.isSome = true
  pending_of_recent : c.recent.isSome = true → c.pending.isSome = true
  idle_of_expression : c.options.mode = .expression → c.IsIdle
  /-- A stopped calculator shows the message of a fault and holds the code that goes with it. -/
  stopped_of_alarm : ∀ alarm, c.alarm = some alarm →
    c.IsIdle ∧ c.fresh = true ∧ c.display = alarm.message ∧
      alarm.code = Fault.codeOfMessage alarm.message ∧ ∃ fault : Fault, alarm = fault.alarm
  finite_accumulator : IsFiniteRegister c.accumulator
  finite_recent : IsFiniteRegister c.recent
  finite_memory : IsFiniteRegister c.memory

/-- A running calculator that differs from another at most in its display, in whether it awaits a
fresh number, in its tape, and in options other than the mode. -/
structure Shows (c next : Calculator) : Prop where
  accumulator : next.accumulator = c.accumulator
  pending : next.pending = c.pending
  recent : next.recent = c.recent
  memory : next.memory = c.memory
  mode : next.options.mode = c.options.mode
  running : next.alarm = none

variable {c next : Calculator}

/-! ## Registers -/

theorem isFiniteRegister_none : IsFiniteRegister none := fun _ h => nomatch h

theorem isFiniteRegister_some {x : Binary64} (h : x.isFinite = true) :
    IsFiniteRegister (some x) := by
  rintro _ ⟨⟩
  exact h

theorem isFiniteRegister_value? (c : Calculator) : IsFiniteRegister c.value? :=
  fun _ h => isFinite_of_readDisplay? h

theorem alarm_eq_none (h : c.isStopped = false) : c.alarm = none :=
  Option.not_isSome_iff_eq_none.mp (Bool.eq_false_iff.mp h)

/-- An idle calculator that runs is coherent, whatever it shows and in any mode. -/
theorem Coherent.of_isIdle (hidle : c.IsIdle) (hrunning : c.alarm = none)
    (hmemory : IsFiniteRegister c.memory) : Coherent c where
  accumulator_of_pending h := by rw [hidle.pending] at h; cases h
  pending_of_recent h := by rw [hidle.recent] at h; cases h
  idle_of_expression _ := hidle
  stopped_of_alarm _ h := by rw [hrunning] at h; cases h
  finite_accumulator := hidle.accumulator ▸ isFiniteRegister_none
  finite_recent := hidle.recent ▸ isFiniteRegister_none
  finite_memory := hmemory

theorem coherent_make (options : Options) : Coherent (make options) :=
  .of_isIdle ⟨rfl, rfl, rfl⟩ rfl isFiniteRegister_none

theorem Coherent.stop (h : Coherent c) (fault : Fault) : Coherent (c.stop fault) where
  accumulator_of_pending := nofun
  pending_of_recent := nofun
  idle_of_expression _ := ⟨rfl, rfl, rfl⟩
  stopped_of_alarm := by
    rintro _ ⟨⟩
    exact ⟨⟨rfl, rfl, rfl⟩, rfl, rfl, (Fault.codeOfMessage_message fault).symm, fault, rfl⟩
  finite_accumulator := isFiniteRegister_none
  finite_recent := isFiniteRegister_none
  finite_memory := h.finite_memory

theorem Coherent.of_shows (h : Coherent c) (hshows : c.Shows next) : Coherent next where
  accumulator_of_pending := by
    rw [hshows.pending, hshows.accumulator]
    exact h.accumulator_of_pending
  pending_of_recent := by
    rw [hshows.recent, hshows.pending]
    exact h.pending_of_recent
  idle_of_expression hmode := by
    obtain ⟨haccumulator, hpending, hrecent⟩ := h.idle_of_expression (hshows.mode ▸ hmode)
    exact ⟨hshows.accumulator.trans haccumulator, hshows.pending.trans hpending,
      hshows.recent.trans hrecent⟩
  stopped_of_alarm _ halarm := by rw [hshows.running] at halarm; cases halarm
  finite_accumulator := hshows.accumulator ▸ h.finite_accumulator
  finite_recent := hshows.recent ▸ h.finite_recent
  finite_memory := hshows.memory ▸ h.finite_memory

theorem Coherent.whenRunning (h : Coherent c) (hnext : c.alarm = none → Coherent next) :
    Coherent (c.whenRunning next) := by
  cases hstopped : c.isStopped with
  | true => rwa [whenRunning_of_stopped hstopped]
  | false =>
    rw [whenRunning_of_running hstopped]
    exact hnext (alarm_eq_none hstopped)

theorem Coherent.orStop (h : Coherent c) {outcome : Except Fault Calculator}
    (hnext : ∀ next, outcome = .ok next → Coherent next) : Coherent (c.orStop outcome) := by
  cases outcome with
  | ok next => exact hnext next rfl
  | error fault => exact h.stop fault

/-! ## Typing and clearing -/

/-- Typing and editing change only what is shown. -/
theorem Coherent.of_edits (h : Coherent c) (hrunning : c.alarm = none) (hedits : c.Edits next) :
    Coherent next := by
  refine h.of_shows ?_
  rw [hedits]
  exact ⟨rfl, rfl, rfl, rfl, rfl, hrunning⟩

/-- Clearing keeps the options and the tape and nothing else, so it needs no coherence. -/
theorem coherent_clearAll (c : Calculator) : Coherent c.clearAll :=
  .of_isIdle ⟨rfl, rfl, rfl⟩ rfl isFiniteRegister_none

/-! ## The chain -/

/-- A chain that goes on: in sequential mode a running result, an operator and possibly a right
operand to be repeated, all finite. -/
theorem Coherent.of_chain (hmode : c.options.mode = .sequential) (hrunning : c.alarm = none)
    (haccumulator : c.accumulator.isSome = true)
    (hpending : c.recent.isSome = true → c.pending.isSome = true)
    (hfinite : IsFiniteRegister c.accumulator) (hrecent : IsFiniteRegister c.recent)
    (hmemory : IsFiniteRegister c.memory) : Coherent c where
  accumulator_of_pending _ := haccumulator
  pending_of_recent := hpending
  idle_of_expression h := by rw [hmode] at h; cases h
  stopped_of_alarm _ h := by rw [hrunning] at h; cases h
  finite_accumulator := hfinite
  finite_recent := hrecent
  finite_memory := hmemory

theorem isFinite_of_reduce {op : Operator} {left right result : Binary64}
    (h : c.reduce op left right = .ok result) : result.isFinite = true := by
  obtain ⟨_, -, haccept⟩ := bind_eq_ok_iff.mp h
  exact Binary64.isFinite_of_accept haccept

theorem Coherent.awaitOperand (h : Coherent c) (hmode : c.options.mode = .sequential)
    (hrunning : c.alarm = none) {x : Binary64} (hx : x.isFinite = true) (t : Text)
    (op : Operator) :
    Coherent ({ c with accumulator := some x, display := t }.awaitOperand op) :=
  .of_chain hmode hrunning rfl (fun _ => rfl) (isFiniteRegister_some hx) isFiniteRegister_none
    h.finite_memory

/-- An operator leaves a finite running result: the one there was, the number on the display, or
what the two reduce to. -/
theorem Coherent.advanceChain (h : Coherent c) (hmode : c.options.mode = .sequential)
    (hrunning : c.alarm = none) {op : Operator} (hnext : c.advanceChain op = .ok next) :
    Coherent next := by
  unfold Calculator.advanceChain at hnext
  split at hnext
  · cases hnext
    exact h
  rename_i current hcurrent
  have hkeep : ∀ x, c.accumulator = some x → Coherent (c.awaitOperand op) := fun x hx =>
    .of_chain hmode hrunning (Option.isSome_of_eq_some hx) (fun _ => rfl) h.finite_accumulator
      isFiniteRegister_none h.finite_memory
  split at hnext
  · rename_i pending accumulator _ haccumulator
    split at hnext
    · -- no operand was typed: the operator replaces the one that is pending
      cases hnext
      exact hkeep accumulator haccumulator
    · obtain ⟨reduced, hreduced, hnext⟩ := bind_eq_ok_iff.mp hnext
      cases hnext
      exact h.awaitOperand hmode hrunning (isFinite_of_reduce hreduced) _ op
  · -- the chain begins with the number on the display
    cases hnext
    exact h.awaitOperand hmode hrunning (isFiniteRegister_value? c _ hcurrent) _ op
  · -- a result without an operator goes on as it is
    cases hnext
    rename_i hsome _
    obtain ⟨x, hx⟩ := Option.ne_none_iff_exists'.mp hsome
    exact hkeep x hx

/-- The right operand is repeated, or is the running result, or was typed. -/
theorem Coherent.rightOperand (h : Coherent c) {accumulator right : Binary64}
    (haccumulator : c.accumulator = some accumulator)
    (hright : c.rightOperand? accumulator = some right) : right.isFinite = true := by
  unfold rightOperand? at hright
  split at hright
  · cases hright
    cases hrecent : c.recent with
    | none => exact h.finite_accumulator _ haccumulator
    | some recent => exact h.finite_recent _ hrecent
  · exact isFiniteRegister_value? c _ hright

/-- Without a pending operator there is no right operand either, so equals that finds nothing
pending may replace the running result. -/
theorem Coherent.concludeChain (h : Coherent c) (hmode : c.options.mode = .sequential)
    (hrunning : c.alarm = none) (hnext : c.concludeChain = .ok next) : Coherent next := by
  unfold Calculator.concludeChain at hnext
  split at hnext
  · rename_i op accumulator hpending haccumulator
    split at hnext
    · cases hnext
      exact h
    · rename_i right hright
      obtain ⟨result, hresult, hnext⟩ := bind_eq_ok_iff.mp hnext
      cases hnext
      have hfinite := h.rightOperand haccumulator hright
      exact .of_chain hmode hrunning rfl (fun _ => Option.isSome_of_eq_some hpending)
        (isFiniteRegister_some (isFinite_of_reduce hresult)) (isFiniteRegister_some hfinite)
        h.finite_memory
  · rename_i hnone
    cases hnext
    have hpending : c.pending = none := by
      cases hp : c.pending with
      | none => rfl
      | some op =>
        obtain ⟨x, hx⟩ := Option.isSome_iff_exists.mp
          (h.accumulator_of_pending (Option.isSome_of_eq_some hp))
        exact absurd hx (hnone op x hp)
    exact
      { h with
        accumulator_of_pending := fun hp => by rw [hpending] at hp; cases hp
        idle_of_expression := fun he => by rw [hmode] at he; cases he
        stopped_of_alarm := fun _ halarm => by rw [hrunning] at halarm; cases halarm
        finite_accumulator := isFiniteRegister_value? c }

theorem Coherent.concludeExpression (h : Coherent c) (hrunning : c.alarm = none)
    (hnext : c.concludeExpression = .ok next) : Coherent next := by
  unfold Calculator.concludeExpression at hnext
  split at hnext
  · cases hnext
    exact h
  · obtain ⟨_, -, hnext⟩ := bind_eq_ok_iff.mp hnext
    obtain ⟨_, -, hnext⟩ := bind_eq_ok_iff.mp hnext
    cases hnext
    exact h.of_shows ⟨rfl, rfl, rfl, rfl, rfl, hrunning⟩

theorem Coherent.operator (h : Coherent c) (op : Operator) : Coherent (c.operator op) := by
  refine h.whenRunning fun hrunning => ?_
  cases hmode : c.options.mode with
  | sequential => exact h.orStop fun _ hnext => h.advanceChain hmode hrunning hnext
  | expression => exact h.of_edits hrunning (edits_typing c _)

theorem Coherent.operatorSymbol (h : Coherent c) (symbol : Char) :
    Coherent (c.operatorSymbol symbol) := by
  refine h.whenRunning fun _ => ?_
  split
  · exact h.operator _
  · exact h.stop _

theorem Coherent.equals (h : Coherent c) : Coherent c.equals := by
  refine h.whenRunning fun hrunning => ?_
  cases hmode : c.options.mode with
  | sequential => exact h.orStop fun _ hnext => h.concludeChain hmode hrunning hnext
  | expression => exact h.orStop fun _ hnext => h.concludeExpression hrunning hnext

/-! ## Memory -/

theorem Coherent.of_memory (h : Coherent c) {memory : Option Binary64}
    (hmemory : IsFiniteRegister memory) : Coherent { c with memory := memory } :=
  { h with
    idle_of_expression := fun hmode =>
      ⟨(h.idle_of_expression hmode).accumulator, (h.idle_of_expression hmode).pending,
        (h.idle_of_expression hmode).recent⟩
    stopped_of_alarm := fun alarm halarm => by
      obtain ⟨⟨haccumulator, hpending, hrecent⟩, hfault⟩ := h.stopped_of_alarm alarm halarm
      exact ⟨⟨haccumulator, hpending, hrecent⟩, hfault⟩
    finite_memory := hmemory }

theorem Coherent.storeMemory (h : Coherent c) : Coherent c.storeMemory := by
  refine h.whenRunning fun _ => ?_
  split
  · rename_i x hx
    exact h.of_memory (isFiniteRegister_some (isFiniteRegister_value? c x hx))
  · exact h

theorem Coherent.accumulate (h : Coherent c) (factor : Binary64) :
    Coherent (c.accumulate factor) := by
  refine h.whenRunning fun _ => ?_
  split
  · exact h
  split
  · rename_i htotal
    exact h.of_memory (isFiniteRegister_some (Binary64.isFinite_of_accept htotal))
  · exact h.stop _

theorem Coherent.emptyMemory (h : Coherent c) : Coherent c.emptyMemory :=
  h.whenRunning fun _ => h.of_memory isFiniteRegister_none

/-! ## Mode and options -/

theorem Coherent.switchMode (h : Coherent c) (mode : Mode) : Coherent (c.switchMode mode) := by
  refine h.whenRunning fun hrunning => ?_
  split
  · exact h
  · exact .of_isIdle ⟨rfl, rfl, rfl⟩ hrunning h.finite_memory

theorem Coherent.configure (h : Coherent c) (change : OptionsChange) :
    Coherent (c.configure change) := by
  refine h.whenRunning fun hrunning => ?_
  have hconfigured :
      Coherent { c with options := c.options.change { change with mode := none } } :=
    h.of_shows ⟨rfl, rfl, rfl, rfl, rfl, hrunning⟩
  dsimp only
  split
  · exact hconfigured.switchMode _
  · exact hconfigured

/-! ## Runs -/

/-- An operation of a running calculator keeps coherence: it fails, it edits, or it is one of those
that write registers, the mode or options. -/
theorem Coherent.perform_of_running (h : Coherent c) (hrunning : c.alarm = none)
    (operation : Operation) : Coherent (c.perform operation) := by
  rcases perform_effect c operation with ⟨-, fault, hstop⟩ | heffect
  · rw [hstop]
    exact h.stop fault
  cases operation with
  | press key =>
    cases key with
    | operator op => exact h.operator op
    | equals => exact h.equals
    | clearEntry =>
      exact h.of_edits hrunning (heffect.edits_clearEntry (isStopped_eq_false hrunning))
    | clearAll => exact coherent_clearAll c
    | storeMemory => exact h.storeMemory
    | addToMemory => exact h.accumulate _
    | subtractFromMemory => exact h.accumulate _
    | emptyMemory => exact h.emptyMemory
    | mode mode => exact h.switchMode mode
    | _ => exact h.of_edits hrunning heffect
  | operatorSymbol symbol => exact h.operatorSymbol symbol
  | configure change => exact h.configure change

/-- **Every operation keeps coherence.** -/
theorem Coherent.perform (h : Coherent c) (operation : Operation) :
    Coherent (c.perform operation) := by
  cases hstopped : c.isStopped with
  | false => exact h.perform_of_running (alarm_eq_none hstopped) operation
  | true => exact perform_cases_of_stopped hstopped h (coherent_clearAll c) operation

theorem Reachable.coherent (h : Reachable c) : Coherent c :=
  h.of_step coherent_make fun _ operation hc => hc.perform operation

/-- **Every run ends coherent**: whatever operations are performed on a calculator just switched
on, with any options. -/
theorem coherent_performAll (options : Options) (operations : List Operation) :
    Coherent ((make options).performAll operations) :=
  ((Reachable.make options).performAll operations).coherent

end Calculator

end Keypad
