import Keypad.Proofs.Calculator.Along
import Keypad.Proofs.Calculator.ChainDisplay
import Keypad.Proofs.Calculator.Frame
import Keypad.Proofs.Display.ExponentForm

/-!
# A chain shows a number

In sequential mode a running calculator shows a number, and the keys that act on the number
displayed find one: accepted results and entries are finite, and a switch from expression mode
replaces what is no number by zero.  The one exception is a recalled number that is rounded beyond
the finite range when it is written with an exponent.  What is then displayed cannot be read, and
the same keys do nothing, without a message.

## Main definitions

* `Calculator.ActsOn`, `Calculator.Ignores`: the keys act on the number displayed, or do nothing
* `Calculator.ShowsNumber`: a number is displayed in sequential mode, and a number is being typed
* `Calculator.RecallsOverrun`: a recalled number is written beyond the finite range

## Main results

* `ShowsNumber.perform`: kept by every operation but such a recall
* `Reachable.ignores_of_recallsOverrun`: what such a recall leads to
* `actsOn_performAll_iff`: the runs along which every chain shows a number the keys act on
-/

namespace Keypad

/-- Changing the sign of a display does not change whether it can be read. -/
theorem DisplayText.isSome_readDisplay?_flipSign {t : Text} (ht : DisplayText t) :
    (readDisplay? (Calculator.flipSign t)).isSome = (readDisplay? t).isSome := by
  have h := congrArg Option.isSome ht.map_abs_readDisplay?_flipSign
  rwa [Option.isSome_map, Option.isSome_map] at h

namespace Calculator

/-! ## Keys that act on the number displayed -/

/-- The keys that take the number on the display act on it, unless a fault stops the calculator. -/
structure ActsOn (c : Calculator) (x : Binary64) : Prop where
  /-- An operator awaits its right operand; the left one is the running result. -/
  operator : ∀ op, c.Fails (c.operator op) ∨
    (c.operator op).pending = some op ∧ (c.operator op).accumulator.isSome = true ∧
      (c.operator op).fresh = true
  /-- Equals leaves a running result. -/
  equals : c.Fails c.equals ∨ c.equals.accumulator.isSome = true ∧ c.equals.fresh = true
  /-- Percent and tax, each with its places and its computation. -/
  convert : ∀ places f, c.convert places f =
    c.orStop (((f x).bind fun y => y.accept places).map fun result =>
      c.typing ({ c.style with places := places }.write result))
  storeMemory : c.storeMemory = { c with memory := some x }
  accumulate : ∀ factor, c.accumulate factor =
    c.orStop ((((c.memory.getD (.zero false)).add (factor.mul x)).accept c.places).map fun total =>
      { c with memory := some total })

/-- The keys that take the number on the display leave the calculator as it is. -/
structure Ignores (c : Calculator) : Prop where
  operator : ∀ op, c.operator op = c
  convert : ∀ places f, c.convert places f = c
  storeMemory : c.storeMemory = c
  accumulate : ∀ factor, c.accumulate factor = c

variable {c next : Calculator}

section Running

variable (hrunning : c.isStopped = false) (hmode : c.options.mode = .sequential)

section Value

variable {x : Binary64} (hvalue : c.value? = some x)

include hvalue in
/-- An operator leaves itself pending and a running result. -/
theorem awaits_of_advanceChain {op : Operator} (hnext : c.advanceChain op = .ok next) :
    next.pending = some op ∧ next.accumulator.isSome = true ∧ next.fresh = true := by
  unfold advanceChain at hnext
  rw [hvalue] at hnext
  dsimp only at hnext
  split at hnext
  · rename_i pending accumulator hpending haccumulator
    split at hnext
    · cases hnext
      exact ⟨rfl, Option.isSome_of_eq_some haccumulator, rfl⟩
    · obtain ⟨reduced, -, hnext⟩ := bind_eq_ok_iff.mp hnext
      cases hnext
      exact ⟨rfl, rfl, rfl⟩
  · cases hnext
    exact ⟨rfl, rfl, rfl⟩
  · rename_i hsome _
    cases hnext
    exact ⟨rfl, Option.isSome_iff_ne_none.mpr hsome, rfl⟩

include hvalue in
theorem isSome_accumulator_of_concludeChain (hnext : c.concludeChain = .ok next) :
    next.accumulator.isSome = true ∧ next.fresh = true := by
  unfold concludeChain at hnext
  split at hnext
  · rename_i op accumulator hpending haccumulator
    -- after a result an operand is repeated; otherwise it is the number displayed
    obtain ⟨right, hright⟩ : ∃ right, c.rightOperand? accumulator = some right := by
      unfold rightOperand?
      split
      · exact ⟨_, rfl⟩
      · exact ⟨x, hvalue⟩
    rw [hright] at hnext
    obtain ⟨result, -, hnext⟩ := bind_eq_ok_iff.mp hnext
    cases hnext
    exact ⟨rfl, rfl⟩
  · cases hnext
    exact ⟨Option.isSome_of_eq_some hvalue, rfl⟩

include hrunning hmode hvalue

/-- **The keys act on the number displayed.** -/
theorem actsOn_of_value? : c.ActsOn x where
  operator op := by
    unfold operator
    rw [whenRunning_of_running hrunning, hmode]
    exact fails_or_of_orStop fun next => awaits_of_advanceChain hvalue
  equals := by
    rw [equals_of_sequential hrunning hmode]
    exact fails_or_of_orStop fun next => isSome_accumulator_of_concludeChain hvalue
  convert places f := by
    have hoperand : c.operand = .ok (some x) := by
      unfold operand
      rw [hmode, hvalue]
    unfold convert
    rw [whenRunning_of_running hrunning, hoperand]
    -- both sides compute, accept and write; they differ in how the three are chained
    refine congrArg c.orStop ?_
    show (f x).bind (fun y => (y.accept places).bind fun result => _) = _
    cases f x with
    | error fault => rfl
    | ok y => cases y.accept places <;> rfl
  storeMemory := by
    unfold storeMemory
    rw [whenRunning_of_running hrunning, hvalue]
  accumulate factor := by
    unfold accumulate
    rw [whenRunning_of_running hrunning, hvalue]
    dsimp only
    split
    · rename_i htotal
      rw [htotal]
      rfl
    · rename_i hfault
      rw [hfault]
      rfl

end Value

include hrunning hmode in
/-- **Without a number on the display** the same keys do nothing. -/
theorem ignores_of_value? (hvalue : c.value? = none) : c.Ignores where
  operator op := by
    unfold operator advanceChain
    rw [whenRunning_of_running hrunning, hmode, hvalue]
    rfl
  convert places f := by
    have hoperand : c.operand = .ok none := by
      unfold operand
      rw [hmode, hvalue]
    unfold convert
    rw [whenRunning_of_running hrunning, hoperand]
    rfl
  storeMemory := by
    unfold storeMemory
    rw [whenRunning_of_running hrunning, hvalue]
  accumulate factor := by
    unfold accumulate
    rw [whenRunning_of_running hrunning, hvalue]

end Running

/-! ## Numbers on the display -/

/-- In sequential mode a running calculator displays a number, and what is being typed is a finite
number. -/
structure ShowsNumber (c : Calculator) : Prop where
  shown : c.isStopped = false → c.options.mode = .sequential → c.value?.isSome = true
  entry : c.options.mode = .sequential → c.HasEntry fun n => n.value.isFinite = true

theorem isSome_readDisplay?_zeroText : (readDisplay? zeroText).isSome = true := by decide

/-- Where a fresh number is awaited there is no entry. -/
theorem showsNumber_of_fresh (hfresh : c.fresh = true) (h : c.value?.isSome = true) :
    ShowsNumber c :=
  ⟨fun _ _ => h, fun _ => hasEntry_of_fresh hfresh⟩

theorem showsNumber_of_expression (hmode : c.options.mode = .expression) : ShowsNumber c where
  shown _ h := by rw [hmode] at h; cases h
  entry h := by rw [hmode] at h; cases h

theorem showsNumber_make (options : Options) : ShowsNumber (make options) :=
  showsNumber_of_fresh rfl isSome_readDisplay?_zeroText

theorem showsNumber_clearAll (c : Calculator) : ShowsNumber c.clearAll :=
  showsNumber_of_fresh rfl isSome_readDisplay?_zeroText

theorem isFinite_of_digitCount {n : DisplayNumber} (h : Text.digitCount n.text ≤ digitCeiling) :
    n.value.isFinite = true :=
  Binary64.isFinite_of_exceedsCeiling (n.exceedsCeiling_of_digitCount h)

/-- **An operation of a chain that does not recall the memory** displays a number, at any places. -/
theorem ShowsNumber.of_redisplays (h : ShowsNumber c) (hrunning : c.isStopped = false)
    (hmode : c.options.mode = .sequential) (hc : DisplayText c.display)
    (hnext : c.Redisplays next) : ShowsNumber next := by
  refine ⟨fun hrun _ => ?_, fun _ => hnext.hasEntry (h.entry hmode) hc.isTidy ?_ ?_ ?_⟩
  · have hshown : (readDisplay? c.display).isSome = true := h.shown hrunning hmode
    unfold value?
    cases hnext with
    | stopped fault => cases hrun
    | kept hdisplay => exact hdisplay ▸ hshown
    | cleared hdisplay => exact hdisplay ▸ isSome_readDisplay?_zeroText
    | signed hdisplay => rw [hdisplay, hc.isSome_readDisplay?_flipSign, hshown]
    | typed n hdisplay hfew =>
      exact hdisplay ▸ n.isSome_readDisplay?_text (isFinite_of_digitCount hfew)
    | edited hfresh hedit =>
      obtain ⟨n, hn, hfinite⟩ := h.entry hmode hfresh
      obtain ⟨m, hdisplay, hless⟩ := hedit n hn
      exact hdisplay ▸ m.isSome_readDisplay?_text (hless.isFinite hfinite)
    | written style _ hr hdisplay =>
      obtain ⟨n, hn, hfinite⟩ := exists_displayNumber_finite_of_accept hr
      rw [hdisplay, ← (isTidy_write style _).readDisplay?_eraseSeparators, hn]
      exact n.isSome_readDisplay?_text hfinite
  · exact fun n hfew => isFinite_of_digitCount hfew
  · exact fun m n hless hfinite => hless.isFinite hfinite
  · exact fun style v r _ hr => exists_displayNumber_finite_of_accept hr

/-! ## Mode and options -/

/-- A switch from expression mode replaces what is no number. -/
theorem showsNumber_switchMode (hrunning : c.isStopped = false)
    (hmode : c.options.mode = .expression) (mode : Mode) : ShowsNumber (c.switchMode mode) := by
  cases mode with
  | expression =>
    rw [← hmode, switchMode_self]
    exact showsNumber_of_expression hmode
  | sequential =>
    unfold switchMode
    rw [whenRunning_of_running hrunning, if_neg (by rw [hmode]; decide)]
    refine showsNumber_of_fresh rfl ?_
    unfold value?
    dsimp only
    split
    · exact isSome_readDisplay?_zeroText
    · rename_i hsome
      exact Option.isSome_iff_ne_none.mpr fun hnone => hsome ⟨rfl, hnone⟩

/-- Expression mode is left by a switch of mode only. -/
theorem showsNumber_perform_of_expression (hrunning : c.isStopped = false)
    (hmode : c.options.mode = .expression) (operation : Operation) :
    ShowsNumber (c.perform operation) := by
  cases hswitches : operation.switchesMode with
  | false =>
    refine showsNumber_of_expression ?_
    rw [options_perform c hswitches, hmode]
  | true =>
    cases operation with
    | press key =>
      cases key with
      | mode mode => exact showsNumber_switchMode hrunning hmode mode
      | _ => cases hswitches
    | operatorSymbol symbol => cases hswitches
    | configure change =>
      show ShowsNumber (c.configure change)
      refine whenRunning_cases (showsNumber_of_expression hmode) ?_
      dsimp only
      split
      · refine showsNumber_switchMode ?_ ?_ _
        · exact hrunning
        · exact hmode
      · exact showsNumber_of_expression hmode

/-! ## Recalling the memory -/

/-- In a chain, the memory holds a number that is rounded beyond the finite range when it is
written, and is recalled. -/
def RecallsOverrun (c : Calculator) (operation : Operation) : Prop :=
  operation = .press .recallMemory ∧ c.isStopped = false ∧ c.options.mode = .sequential ∧
    ∃ x ∈ c.memory, c.style.Overruns x

instance (c : Calculator) (operation : Operation) : Decidable (c.RecallsOverrun operation) :=
  inferInstanceAs (Decidable (_ ∧ _ ∧ _ ∧ _))

theorem recallMemory_of_none (hrunning : c.isStopped = false) (hmemory : c.memory = none) :
    c.recallMemory = c := by
  rw [recallMemory, whenRunning_of_running hrunning, hmemory]

theorem recallMemory_of_sequential (hrunning : c.isStopped = false)
    (hmode : c.options.mode = .sequential) {x : Binary64} (hx : c.memory = some x) :
    c.recallMemory = { c with display := c.textOf x, fresh := true } := by
  unfold recallMemory
  rw [whenRunning_of_running hrunning, hx]
  dsimp only
  rw [hmode]

theorem places_le (c : Calculator) : c.style.places - 1 ≤ greatestDecade := by
  have hplaces : c.options.precision.toNat < 256 := UInt8.toNat_lt _
  have hdecade : greatestDecade = 308 := rfl
  show c.options.precision.toNat - 1 ≤ greatestDecade
  omega

/-- A recalled number is displayed as one unless it overruns. -/
theorem isSome_value?_recallMemory_iff (hrunning : c.isStopped = false)
    (hmode : c.options.mode = .sequential) {x : Binary64} (hx : c.memory = some x)
    (hfinite : x.isFinite = true) :
    c.recallMemory.value?.isSome = true ↔ ¬ c.style.Overruns x := by
  rw [recallMemory_of_sequential hrunning hmode hx]
  exact Style.isSome_readDisplay?_write_iff c.places_le hfinite

theorem ShowsNumber.recallMemory (h : ShowsNumber c) (hrunning : c.isStopped = false)
    (hmode : c.options.mode = .sequential) (hmemory : IsFiniteRegister c.memory)
    (hoverrun : ¬ c.RecallsOverrun (.press .recallMemory)) : ShowsNumber c.recallMemory := by
  cases hx : c.memory with
  | none =>
    rw [recallMemory_of_none hrunning hx]
    exact h
  | some x =>
    have hkept : ¬ c.style.Overruns x := fun hover =>
      hoverrun ⟨rfl, hrunning, hmode, x, hx, hover⟩
    refine showsNumber_of_fresh ?_ ?_
    · rw [recallMemory_of_sequential hrunning hmode hx]
    · exact (isSome_value?_recallMemory_iff hrunning hmode hx (hmemory x hx)).mpr hkept

/-- What is displayed after a recall that overruns cannot be read. -/
theorem Reachable.value?_of_recallsOverrun (h : Reachable c) {operation : Operation}
    (hover : c.RecallsOverrun operation) :
    (c.perform operation).isStopped = false ∧ (c.perform operation).options.mode = .sequential ∧
      (c.perform operation).value? = none := by
  obtain ⟨rfl, hrunning, hmode, x, hx, hoverruns⟩ := hover
  have hfinite : x.isFinite = true := h.coherent.finite_memory x hx
  have hnone : ¬ c.recallMemory.value?.isSome = true := fun hsome =>
    (isSome_value?_recallMemory_iff hrunning hmode hx hfinite).mp hsome hoverruns
  have hrecalled := recallMemory_of_sequential hrunning hmode hx
  refine ⟨?_, ?_, Option.not_isSome_iff_eq_none.mp hnone⟩
  · exact (congrArg isStopped hrecalled).trans hrunning
  · exact (congrArg (·.options.mode) hrecalled).trans hmode

/-- **A recall that overruns** leaves the keys nothing to act on. -/
theorem Reachable.ignores_of_recallsOverrun (h : Reachable c) {operation : Operation}
    (hover : c.RecallsOverrun operation) : (c.perform operation).Ignores := by
  obtain ⟨hrunning, hmode, hvalue⟩ := h.value?_of_recallsOverrun hover
  exact ignores_of_value? hrunning hmode hvalue

/-! ## Runs -/

/-- **Every operation leaves a number on the display of a chain**, unless it recalls one that
overruns. -/
theorem ShowsNumber.perform (h : ShowsNumber c) (hreachable : Reachable c) {operation : Operation}
    (hoverrun : ¬ c.RecallsOverrun operation) : ShowsNumber (c.perform operation) := by
  cases hstopped : c.isStopped with
  | true => exact perform_cases_of_stopped hstopped h (showsNumber_clearAll c) operation
  | false =>
    cases hmode : c.options.mode with
    | expression => exact showsNumber_perform_of_expression hstopped hmode operation
    | sequential =>
      by_cases hrecall : operation = .press .recallMemory
      · subst hrecall
        exact h.recallMemory hstopped hmode hreachable.coherent.finite_memory hoverrun
      · have hc : DisplayText c.display := hreachable.displayText (alarm_eq_none hstopped)
        have hnext := redisplays_perform hmode (h.entry hmode) hrecall
        exact h.of_redisplays hstopped hmode hc hnext

/-- **The runs along which every chain shows a number**: wherever a run is in sequential mode and
not stopped, the display is read as a number and the keys act on it, exactly if no number is
recalled that overruns. -/
theorem actsOn_performAll_iff (options : Options) (operations : List Operation) :
    (∀ before, before <+: operations →
      let c := (make options).performAll before
      c.isStopped = false → c.options.mode = .sequential →
        ∃ x, c.value? = some x ∧ c.ActsOn x) ↔
      (make options).Along (fun c operation => ¬ c.RecallsOverrun operation) operations := by
  constructor
  · intro h
    -- the state right behind a recall that overruns shows no number
    refine (along_iff operations).mpr fun before operation hbegins hover => ?_
    have hreachable : Reachable ((make options).performAll before) :=
      (Reachable.make options).performAll before
    obtain ⟨hrunning, hmode, hnone⟩ := hreachable.value?_of_recallsOverrun hover
    have hafter : (make options).performAll (before ++ [operation]) =
        ((make options).performAll before).perform operation := performAll_append ..
    rw [← hafter] at hrunning hmode hnone
    obtain ⟨x, hx, -⟩ := h _ hbegins hrunning hmode
    rw [hnone] at hx
    cases hx
  · rintro h before ⟨after, rfl⟩ c hrunning hmode
    have hbefore := ((along_append before after).mp h).1
    have hshows : ShowsNumber c :=
      Along.of_step (fun _ _ hreachable hkept hshows => hshows.perform hreachable hkept)
        (.make options) (showsNumber_make options) hbefore
    obtain ⟨x, hx⟩ := Option.isSome_iff_exists.mp (hshows.shown hrunning hmode)
    exact ⟨x, hx, actsOn_of_value? hrunning hmode hx⟩

/-- Options under which large values are written with an exponent, in two places. -/
def exponentOptions : Options := { Options.standard with scientific := true, mode := .expression }

/-- The keys that make a number of 309 digits of one of four, by recalling what is stored behind
itself over and over, and at last recall it in sequential mode. -/
def growthKeys : List Key :=
  [.storeMemory, .recallMemory, .digit '0', .storeMemory, .recallMemory, .digit '0', .storeMemory,
    .recallMemory, .storeMemory, .recallMemory, .digit '0', .storeMemory, .recallMemory,
    .storeMemory, .recallMemory, .digit '0', .storeMemory, .mode .sequential, .recallMemory]

/-- Typing a number and making it grow. -/
def grow (number : Text) : List Operation := (number.map Key.digit ++ growthKeys).map .press

/-- A number in the greatest decade that is rounded down when it is written can be used. -/
theorem actsOn_performAll_iff_recalled :
    let c := (make exponentOptions).performAll (grow "1790".toList)
    c.display = "1.79e+308".toList ∧ ∃ x, c.value? = some x ∧ c.ActsOn x :=
  ⟨by decide +kernel,
    (actsOn_performAll_iff exponentOptions (grow "1790".toList)).mpr (by decide +kernel) _
      List.prefix_rfl (by decide +kernel) (by decide +kernel)⟩

/-- A number just below the greatest finite value is written as `1.80e+308`, beyond it.  The display
has no value then, and operators, equals and the other keys that take it do nothing. -/
theorem recalled_beyond_finite :
    let c := (make exponentOptions).performAll (grow "1795".toList)
    c.isStopped = false ∧ c.options.mode = .sequential ∧ c.display = "1.80e+308".toList ∧
      c.value? = none ∧ c.operator .plus = c ∧ c.equals = c ∧ c.percent = c ∧ c.addTax = c ∧
      c.storeMemory = c ∧ c.addToMemory = c := by
  decide +kernel

end Calculator

end Keypad
