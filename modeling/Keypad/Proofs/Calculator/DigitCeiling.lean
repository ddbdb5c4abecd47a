import Keypad.Proofs.Calculator.Along
import Keypad.Proofs.Calculator.DisplaysWithin

/-!
# What is stored is within the ceiling

A calculator stores accepted results, and numbers as it reads them off the display: the first
operand of a chain, a right operand, and what is put into the memory.  Accepted results are within
the ceiling.  A number off the display is stored whatever its size, so what is stored stays within
the ceiling as long as what is displayed does, and no longer.

## Main definitions

* `Calculator.StoresWithin`: the running result, the repeated operand and the memory are within the
  ceiling
* `isConfigurable`, `Operation.keepsPlaces`: places from one to six, and operations that keep them
  there

## Main results

* `StoresWithin.perform`: whatever is stored off a display within the ceiling is within it
* `storesWithin_performAll_iff`: the runs along which nothing beyond the ceiling can be stored
-/

namespace Keypad

/-- Whether a calculator can be configured with these places: one to six. -/
def isConfigurable (precision : UInt8) : Bool :=
  decide (1 ≤ precision.toNat) && decide (precision.toNat ≤ 6)

theorem isConfigurable_iff {precision : UInt8} :
    isConfigurable precision = true ↔ 1 ≤ precision.toNat ∧ precision.toNat ≤ 6 := by
  simp [isConfigurable]

/-- Whether an operation changes the places, if at all, to one to six. -/
def Operation.keepsPlaces : Operation → Bool
  | .configure change => change.precision.all isConfigurable
  | _ => true

theorem readsWithin_iff_all {t : Text} :
    ((readDisplay? t).all fun x => !x.exceedsCeiling) = true ↔ ReadsWithin t := by
  unfold ReadsWithin
  cases readDisplay? t <;> simp

instance (t : Text) : Decidable (ReadsWithin t) := decidable_of_iff _ readsWithin_iff_all

namespace Calculator

/-- A value a register holds is within the ceiling. -/
def IsRegisterWithin (register : Option Binary64) : Prop :=
  ∀ x, register = some x → x.exceedsCeiling = false

/-- Whatever is stored is within the ceiling. -/
structure StoresWithin (c : Calculator) : Prop where
  accumulator : IsRegisterWithin c.accumulator
  recent : IsRegisterWithin c.recent
  memory : IsRegisterWithin c.memory

variable {c next : Calculator}

/-! ## Registers -/

theorem isRegisterWithin_none : IsRegisterWithin none := nofun

theorem isRegisterWithin_some {x : Binary64} (h : x.exceedsCeiling = false) :
    IsRegisterWithin (some x) := by
  rintro _ ⟨⟩
  exact h

theorem exceedsCeiling_of_accept {places : Nat} {v r : Binary64} (h : v.accept places = .ok r) :
    r.exceedsCeiling = false :=
  ((Binary64.accept_eq_ok_iff _ _ _).mp h).2

theorem exceedsCeiling_of_reduce {op : Operator} {left right result : Binary64}
    (h : c.reduce op left right = .ok result) : result.exceedsCeiling = false := by
  obtain ⟨_, -, haccept⟩ := bind_eq_ok_iff.mp h
  exact exceedsCeiling_of_accept haccept

theorem storesWithin_make (options : Options) : StoresWithin (make options) :=
  ⟨isRegisterWithin_none, isRegisterWithin_none, isRegisterWithin_none⟩

theorem storesWithin_clearAll (c : Calculator) : StoresWithin c.clearAll :=
  ⟨isRegisterWithin_none, isRegisterWithin_none, isRegisterWithin_none⟩

/-- Dropping the computation leaves the memory. -/
theorem StoresWithin.of_memory (h : StoresWithin c) (haccumulator : next.accumulator = none)
    (hrecent : next.recent = none) (hmemory : next.memory = c.memory) : StoresWithin next where
  accumulator := haccumulator ▸ isRegisterWithin_none
  recent := hrecent ▸ isRegisterWithin_none
  memory := hmemory ▸ h.memory

theorem StoresWithin.stop (h : StoresWithin c) (fault : Fault) : StoresWithin (c.stop fault) :=
  h.of_memory rfl rfl rfl

theorem StoresWithin.orStop (h : StoresWithin c) {outcome : Except Fault Calculator}
    (hnext : ∀ next, outcome = .ok next → StoresWithin next) :
    StoresWithin (c.orStop outcome) := by
  cases outcome with
  | ok next => exact hnext next rfl
  | error fault => exact h.stop fault

/-- Typing and editing store nothing. -/
theorem StoresWithin.of_edits (h : StoresWithin c) (hedits : c.Edits next) :
    StoresWithin next := by
  rw [hedits]
  exact ⟨h.accumulator, h.recent, h.memory⟩

theorem StoresWithin.clearEntry (h : StoresWithin c) : StoresWithin c.clearEntry := by
  unfold Calculator.clearEntry
  split
  · exact storesWithin_clearAll c
  · exact h.of_edits (edits_awaiting c)

theorem StoresWithin.switchMode (h : StoresWithin c) (mode : Mode) :
    StoresWithin (c.switchMode mode) := by
  refine whenRunning_cases h ?_
  split
  · exact h
  · exact h.of_memory rfl rfl rfl

theorem StoresWithin.configure (h : StoresWithin c) (change : OptionsChange) :
    StoresWithin (c.configure change) := by
  refine whenRunning_cases h ?_
  have hconfigured :
      StoresWithin { c with options := c.options.change { change with mode := none } } :=
    ⟨h.accumulator, h.recent, h.memory⟩
  dsimp only
  split
  · exact hconfigured.switchMode _
  · exact hconfigured

/-! ## Numbers off the display -/

section Shown

variable (h : StoresWithin c) (hshown : ReadsWithin c.display)

include h hshown

/-- A chain begins with the number on the display, and goes on with accepted results. -/
theorem StoresWithin.advanceChain {op : Operator} (hnext : c.advanceChain op = .ok next) :
    StoresWithin next := by
  unfold Calculator.advanceChain at hnext
  split at hnext
  · cases hnext
    exact h
  rename_i current hcurrent
  have hkeep : StoresWithin (c.awaitOperand op) := ⟨h.accumulator, isRegisterWithin_none, h.memory⟩
  split at hnext
  · split at hnext
    · cases hnext
      exact hkeep
    · obtain ⟨reduced, hreduced, hnext⟩ := bind_eq_ok_iff.mp hnext
      cases hnext
      exact ⟨isRegisterWithin_some (exceedsCeiling_of_reduce hreduced), isRegisterWithin_none,
        h.memory⟩
  · cases hnext
    exact ⟨isRegisterWithin_some (hshown current hcurrent), isRegisterWithin_none, h.memory⟩
  · cases hnext
    exact hkeep

/-- The right operand is repeated, or is the running result, or was typed. -/
theorem StoresWithin.rightOperand {accumulator right : Binary64}
    (haccumulator : c.accumulator = some accumulator)
    (hright : c.rightOperand? accumulator = some right) : right.exceedsCeiling = false := by
  unfold rightOperand? at hright
  split at hright
  · cases hright
    cases hrecent : c.recent with
    | none => exact h.accumulator _ haccumulator
    | some recent => exact h.recent _ hrecent
  · exact hshown right hright

theorem StoresWithin.concludeChain (hnext : c.concludeChain = .ok next) : StoresWithin next := by
  unfold Calculator.concludeChain at hnext
  split at hnext
  · rename_i op accumulator _ haccumulator
    split at hnext
    · cases hnext
      exact h
    · rename_i right hright
      obtain ⟨result, hresult, hnext⟩ := bind_eq_ok_iff.mp hnext
      cases hnext
      exact ⟨isRegisterWithin_some (exceedsCeiling_of_reduce hresult),
        isRegisterWithin_some (h.rightOperand hshown haccumulator hright), h.memory⟩
  · cases hnext
    exact ⟨hshown, h.recent, h.memory⟩

theorem StoresWithin.operator (op : Operator) : StoresWithin (c.operator op) := by
  refine whenRunning_cases h ?_
  cases c.options.mode with
  | sequential => exact h.orStop fun _ hnext => h.advanceChain hshown hnext
  | expression => exact h.of_edits (edits_typing c _)

theorem StoresWithin.operatorSymbol (symbol : Char) : StoresWithin (c.operatorSymbol symbol) := by
  refine whenRunning_cases h ?_
  split
  · exact h.operator hshown _
  · exact h.stop _

theorem StoresWithin.equals : StoresWithin c.equals := by
  refine whenRunning_cases h ?_
  cases c.options.mode with
  | sequential => exact h.orStop fun _ hnext => h.concludeChain hshown hnext
  | expression =>
    refine h.orStop fun next hnext => ?_
    rw [concludes_concludeExpression hnext]
    unfold concludeExpression at hnext
    split at hnext
    · cases hnext
      exact h
    · obtain ⟨_, -, hnext⟩ := bind_eq_ok_iff.mp hnext
      obtain ⟨_, -, hnext⟩ := bind_eq_ok_iff.mp hnext
      cases hnext
      exact ⟨h.accumulator, h.recent, h.memory⟩

theorem StoresWithin.storeMemory : StoresWithin c.storeMemory := by
  refine whenRunning_cases h ?_
  split
  · rename_i x hx
    exact ⟨h.accumulator, h.recent, isRegisterWithin_some (hshown x hx)⟩
  · exact h

omit hshown in
/-- Sums into the memory are accepted. -/
theorem StoresWithin.accumulate (factor : Binary64) : StoresWithin (c.accumulate factor) := by
  refine whenRunning_cases h ?_
  split
  · exact h
  split
  · rename_i htotal
    exact ⟨h.accumulator, h.recent, isRegisterWithin_some (exceedsCeiling_of_accept htotal)⟩
  · exact h.stop _

/-- **Whatever an operation stores off a display within the ceiling is within it.** -/
theorem StoresWithin.perform (operation : Operation) : StoresWithin (c.perform operation) := by
  refine perform_cases h.stop fun heffect => ?_
  cases operation with
  | press key =>
    cases key with
    | operator op => exact h.operator hshown op
    | equals => exact h.equals hshown
    | clearEntry => exact h.clearEntry
    | clearAll => exact storesWithin_clearAll c
    | storeMemory => exact h.storeMemory hshown
    | addToMemory => exact h.accumulate _
    | subtractFromMemory => exact h.accumulate _
    | emptyMemory => exact whenRunning_cases h ⟨h.accumulator, h.recent, isRegisterWithin_none⟩
    | mode mode => exact h.switchMode mode
    -- all other keys edit, percent and tax among them
    | _ => exact h.of_edits heffect
  | operatorSymbol symbol => exact h.operatorSymbol hshown symbol
  | configure change => exact h.configure change

end Shown

/-! ## Places -/

theorem precision_switchMode (c : Calculator) (mode : Mode) :
    (c.switchMode mode).options.precision = c.options.precision := by
  rw [options_switchMode]

/-- The places stay between one and six. -/
theorem isConfigurable_perform (h : isConfigurable c.options.precision = true)
    {operation : Operation} (hkeeps : operation.keepsPlaces = true) :
    isConfigurable (c.perform operation).options.precision = true := by
  cases hconfigures : operation.configures with
  | false =>
    rw [options_perform_of_not_configures c hconfigures]
    exact h
  | true =>
    cases operation with
    | press key => cases hconfigures
    | operatorSymbol symbol => cases hconfigures
    | configure change =>
      refine whenRunning_cases
        (P := fun next => isConfigurable next.options.precision = true) h ?_
      have hchanged : isConfigurable (change.precision.getD c.options.precision) = true := by
        have hall : change.precision.all isConfigurable = true := hkeeps
        cases hprecision : change.precision with
        | none => exact h
        | some precision =>
          rw [hprecision] at hall
          exact hall
      split
      · rw [precision_switchMode]
        exact hchanged
      · exact hchanged

/-! ## Runs -/

/-- The display of a stopped calculator is no number, so a number on the display can be stored. -/
theorem Reachable.storeMemory_of_value? (h : Reachable c) {x : Binary64} (hx : c.value? = some x) :
    c.storeMemory.memory = some x := by
  cases halarm : c.alarm with
  | some alarm =>
    obtain ⟨-, -, hdisplay, -, fault, rfl⟩ := h.coherent.stopped_of_alarm alarm halarm
    have hmessage : c.display = fault.message := hdisplay
    rw [value?, hmessage, readDisplay?_message] at hx
    cases hx
  | none =>
    rw [Calculator.storeMemory, whenRunning_of_running (isStopped_eq_false halarm), hx]

/-- Where nothing beyond the ceiling can be stored, nothing beyond it is displayed. -/
theorem Reachable.readsWithin_of_storesWithin (h : Reachable c)
    (hstores : StoresWithin (c.perform (.press .storeMemory))) : ReadsWithin c.display :=
  fun x hx => hstores.memory x (h.storeMemory_of_value? hx)

/-- No operation of a run that may exceed the ceiling does so on the display. -/
def StaysWithin (c : Calculator) (operation : Operation) : Prop :=
  c.MayExceed operation → ReadsWithin (c.perform operation).display

instance (c : Calculator) (operation : Operation) : Decidable (c.StaysWithin operation) :=
  inferInstanceAs (Decidable (_ → _))

/-- What a run that stays within the ceiling keeps. -/
structure KeepsWithin (c : Calculator) : Prop where
  places : isConfigurable c.options.precision = true
  displays : DisplaysWithin c
  stores : StoresWithin c

theorem KeepsWithin.perform (h : KeepsWithin c) (hreachable : Reachable c) {operation : Operation}
    (hkeeps : operation.keepsPlaces = true) (hstays : c.StaysWithin operation) :
    KeepsWithin (c.perform operation) where
  places := isConfigurable_perform h.places hkeeps
  displays := by
    obtain ⟨hpos, hplaces⟩ := isConfigurable_iff.mp h.places
    exact h.displays.perform hreachable hpos hplaces hstays
  stores := h.stores.perform h.displays.shown operation

theorem keepsWithin_performAll {options : Options}
    (hplaces : isConfigurable options.precision = true) {operations : List Operation}
    (hkeeps : ∀ operation ∈ operations, operation.keepsPlaces = true)
    (h : (make options).Along StaysWithin operations) :
    KeepsWithin ((make options).performAll operations) := by
  -- one condition is on the operations alone, the other on the calculators they find
  have hboth : (make options).Along
      (fun c operation => operation.keepsPlaces = true ∧ c.StaysWithin operation) operations := by
    rw [along_iff] at h ⊢
    exact fun before operation hbegins =>
      ⟨hkeeps operation (hbegins.subset (by simp)), h before operation hbegins⟩
  exact hboth.of_step (fun _ _ hreachable hstep hc => hc.perform hreachable hstep.1 hstep.2)
    (.make options) ⟨hplaces, displaysWithin_make options, storesWithin_make options⟩

/-- **When everything stored is within the ceiling.**  In a run with one to six places, whatever is
stored anywhere along it, or by one more operation from there, is within the ceiling, exactly if no
operation in expression mode and no memory recall of the run leaves a number beyond the ceiling on
the display.  So nothing beyond it is ever stored in sequential mode without recall. -/
theorem storesWithin_performAll_iff {options : Options}
    (hplaces : isConfigurable options.precision = true) {operations : List Operation}
    (hkeeps : ∀ operation ∈ operations, operation.keepsPlaces = true) :
    (∀ before, before <+: operations → ∀ operation,
        StoresWithin (((make options).performAll before).perform operation)) ↔
      ∀ before operation, before ++ [operation] <+: operations →
        ((make options).performAll before).MayExceed operation →
          ReadsWithin (((make options).performAll before).perform operation).display := by
  constructor
  · -- what is displayed can be stored by one more key
    intro h before operation hbegins _
    have hreachable : Reachable (((make options).performAll before).perform operation) :=
      ((Reachable.make options).performAll before).perform operation
    have hrun : (make options).performAll (before ++ [operation]) =
        ((make options).performAll before).perform operation := performAll_append _ _ _
    exact hreachable.readsWithin_of_storesWithin (hrun ▸ h _ hbegins (.press .storeMemory))
  · -- a run within the ceiling up to this point leaves a display from which any operation may store
    intro h before hbegins operation
    have hstays : (make options).Along StaysWithin before :=
      (along_iff before).mpr fun first other hfirst => h first other (hfirst.trans hbegins)
    have hkept : KeepsWithin ((make options).performAll before) :=
      keepsWithin_performAll hplaces (fun other hother => hkeeps other (hbegins.subset hother))
        hstays
    exact hkept.stores.perform hkept.displays.shown operation

/-- A sum evaluated in expression mode, stored, recalled at other places and doubled. -/
theorem storesWithin_performAll_iff_recalled :
    let options : Options := { Options.standard with mode := .expression }
    let operations : List Operation :=
      [.press (.digit '1'), .press (.operator .plus), .press (.digit '2'), .press .equals,
        .press .storeMemory, .press (.mode .sequential), .configure { precision := some 6 },
        .press .recallMemory, .operatorSymbol '*', .press (.digit '2'), .press .equals]
    isConfigurable options.precision = true ∧
      (∀ operation ∈ operations, operation.keepsPlaces = true) ∧
      ((make options).performAll operations).accumulator = some (.ofInt 6) ∧
      ∀ before, before <+: operations → ∀ operation,
        StoresWithin (((make options).performAll before).perform operation) := by
  intro options operations
  have hplaces : isConfigurable options.precision = true := rfl
  have hkeeps : ∀ operation ∈ operations, operation.keepsPlaces = true :=
    List.all_eq_true.mp (by decide)
  have hstays : (make options).Along StaysWithin operations := by decide +kernel
  exact ⟨hplaces, hkeeps, by decide +kernel,
    (storesWithin_performAll_iff hplaces hkeeps).mpr ((along_iff operations).mp hstays)⟩

/-- **Beyond the ceiling.**  Thirteen digits typed in expression mode are stored in the memory, and
begin a chain in sequential mode.  In sequential mode alone, tax leaves `999999999999.99` at its two
places, and recalled at one place this is `1000000000000`, which is stored. -/
theorem memory_beyond_ceiling :
    let typed := (make { Options.standard with mode := .expression }).pressAll
      (.digit '1' :: List.replicate 12 (.digit '0') ++ [.storeMemory])
    let chained := typed.pressAll [.mode .sequential, .operator .plus]
    let recalled := (make { Options.standard with precision := 1 }).pressAll
      ((List.replicate 6 [Key.digit '9', .digit '0']).flatten ++
        [.operator .plus, .point, .digit '9', .equals, .addTax, .storeMemory, .recallMemory,
          .storeMemory])
    (Binary64.ofNat (10 ^ 12)).exceedsCeiling = true ∧
      typed.memory = some (.ofNat (10 ^ 12)) ∧ chained.accumulator = some (.ofNat (10 ^ 12)) ∧
      recalled.memory = some (.ofNat (10 ^ 12)) := by
  decide +kernel

end Calculator

end Keypad
