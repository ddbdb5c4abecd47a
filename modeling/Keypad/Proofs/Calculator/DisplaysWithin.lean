import Keypad.Proofs.Calculator.ChainDisplay
import Keypad.Proofs.Calculator.Frame

/-!
# What a chain displays is within the ceiling

In sequential mode every key but memory recall keeps the display within the ceiling.  Results are
accepted before they are written.  What is being typed is a number: a digit is added to it up to the
ceiling of digits, and every other edit makes it no larger.

In expression mode digits are typed without a ceiling, and a recalled number is written at the
places in effect, which may round it up beyond the ceiling; there the display has to be looked
at.

## Main definitions

* `Calculator.DisplaysWithin`: the display is read within the ceiling, and so is an entry
* `Calculator.MayExceed`: any operation in expression mode, and memory recall

## Main results

* `DisplaysWithin.of_redisplays`: kept by all that an operation of a chain does to the display
* `DisplaysWithin.perform`: kept by all operations, if those that may exceed the ceiling do not
-/

namespace Keypad

theorem DisplayText.readsWithin_flipSign {t : Text} (ht : DisplayText t) (h : ReadsWithin t) :
    ReadsWithin (Calculator.flipSign t) := by
  rw [readsWithin_iff_map_abs, ht.map_abs_readDisplay?_flipSign]
  exact readsWithin_iff_map_abs.mp h

namespace Calculator

/-- The display is read within the ceiling, and in sequential mode an entry is a number within
it. -/
structure DisplaysWithin (c : Calculator) : Prop where
  shown : ReadsWithin c.display
  entry : c.options.mode = .sequential → c.HasEntry fun n => n.value.exceedsCeiling = false

variable {c next : Calculator}

/-! ## Ways to display a number -/

theorem readsWithin_zeroText : ReadsWithin zeroText :=
  DisplayNumber.readsWithin (DisplayNumber.exceedsCeiling_of_digitCount .zero (by decide))

/-- Where a fresh number is awaited there is no entry. -/
theorem displaysWithin_of_fresh (hfresh : next.fresh = true) (h : ReadsWithin next.display) :
    DisplaysWithin next :=
  ⟨h, fun _ => hasEntry_of_fresh hfresh⟩

theorem displaysWithin_make (options : Options) : DisplaysWithin (make options) :=
  displaysWithin_of_fresh rfl readsWithin_zeroText

theorem displaysWithin_clearAll (c : Calculator) : DisplaysWithin c.clearAll :=
  displaysWithin_of_fresh rfl readsWithin_zeroText

/-! ## Chains -/

section Chain

variable (h : DisplaysWithin c) (hmode : c.options.mode = .sequential)

include h hmode

/-- **What an operation of a chain displays is within the ceiling**, at places within the range that
can be configured. -/
theorem DisplaysWithin.of_redisplays (hpos : 1 ≤ c.places) (hplaces : c.places ≤ 6)
    (hc : DisplayText c.display) (hnext : c.Redisplays next) : DisplaysWithin next := by
  have hstyle {style : Style} (hstyle : style.places = c.places ∨ style.places = taxPlaces) :
      1 ≤ style.places ∧ style.places ≤ 6 := by
    rcases hstyle with hstyle | hstyle
    · rw [hstyle]
      exact ⟨hpos, hplaces⟩
    · rw [hstyle]
      decide
  refine ⟨?_, fun _ => hnext.hasEntry (h.entry hmode) hc.isTidy ?_ ?_ ?_⟩
  · cases hnext with
    | stopped fault => exact readsWithin_of_none (readDisplay?_message fault)
    | kept hdisplay => exact hdisplay ▸ h.shown
    | cleared hdisplay => exact hdisplay ▸ readsWithin_zeroText
    | signed hdisplay => exact hdisplay ▸ hc.readsWithin_flipSign h.shown
    | typed n hdisplay hfew =>
      exact hdisplay ▸ DisplayNumber.readsWithin (n.exceedsCeiling_of_digitCount hfew)
    | edited hfresh hedit =>
      obtain ⟨n, hn, hwithin⟩ := h.entry hmode hfresh
      obtain ⟨m, hdisplay, hless⟩ := hedit n hn
      exact hdisplay ▸ DisplayNumber.readsWithin (hless.exceedsCeiling hwithin)
    | written style hplaced hr hdisplay =>
      exact hdisplay ▸ readsWithin_write_of_accept (hstyle hplaced).1 (hstyle hplaced).2 hr
  · exact fun n hfew => n.exceedsCeiling_of_digitCount hfew
  · exact fun m n hless hwithin => hless.exceedsCeiling hwithin
  · exact fun style v r hplaced hr =>
      exists_displayNumber_within_of_accept (hstyle hplaced).1 (hstyle hplaced).2 hr

/-- In sequential mode a recalled number is no entry. -/
theorem DisplaysWithin.recallMemory (hshown : ReadsWithin c.recallMemory.display) :
    DisplaysWithin c.recallMemory := by
  rcases recallMemory_eq_or_fresh hmode with hsame | hfresh
  · rw [hsame]
    exact h
  · exact displaysWithin_of_fresh hfresh hshown

end Chain

/-! ## Mode and options -/

/-- A switch of mode leaves the display or replaces it by zero, and awaits a fresh number. -/
theorem DisplaysWithin.switchMode (h : DisplaysWithin c) (mode : Mode) :
    DisplaysWithin (c.switchMode mode) := by
  refine whenRunning_cases h ?_
  split
  · exact h
  · refine displaysWithin_of_fresh rfl ?_
    dsimp only
    split
    · exact readsWithin_zeroText
    · exact h.shown

theorem DisplaysWithin.configure (h : DisplaysWithin c) (change : OptionsChange) :
    DisplaysWithin (c.configure change) := by
  refine whenRunning_cases h ?_
  have hconfigured :
      DisplaysWithin { c with options := c.options.change { change with mode := none } } :=
    ⟨h.shown, h.entry⟩
  dsimp only
  split
  · exact hconfigured.switchMode _
  · exact hconfigured

/-! ## All operations -/

theorem DisplaysWithin.of_switchesMode (h : DisplaysWithin c) {operation : Operation}
    (hswitches : operation.switchesMode = true) : DisplaysWithin (c.perform operation) := by
  cases operation with
  | press key =>
    cases key with
    | mode mode => exact h.switchMode mode
    | _ => cases hswitches
  | operatorSymbol symbol => cases hswitches
  | configure change => exact h.configure change

/-- The operations that may put a number beyond the ceiling on the display: any in expression mode,
and memory recall. -/
def MayExceed (c : Calculator) (operation : Operation) : Prop :=
  c.options.mode = .expression ∨ operation = .press .recallMemory

instance (c : Calculator) (operation : Operation) : Decidable (c.MayExceed operation) :=
  inferInstanceAs (Decidable (_ ∨ _))

/-- In expression mode the display has to be within the ceiling already; a switch of mode keeps
it. -/
theorem DisplaysWithin.perform_of_expression (h : DisplaysWithin c)
    (hmode : c.options.mode = .expression) {operation : Operation}
    (hshown : ReadsWithin (c.perform operation).display) :
    DisplaysWithin (c.perform operation) := by
  cases hswitches : operation.switchesMode with
  | true => exact h.of_switchesMode hswitches
  | false =>
    refine ⟨hshown, fun hsequential => ?_⟩
    rw [options_perform c hswitches, hmode] at hsequential
    cases hsequential

/-- **Every operation keeps the display within the ceiling**, the ones that may exceed it where they
do not. -/
theorem DisplaysWithin.perform (h : DisplaysWithin c) (hreachable : Reachable c)
    (hpos : 1 ≤ c.places) (hplaces : c.places ≤ 6) {operation : Operation}
    (hshown : c.MayExceed operation → ReadsWithin (c.perform operation).display) :
    DisplaysWithin (c.perform operation) := by
  cases hstopped : c.isStopped with
  | true => exact perform_cases_of_stopped hstopped h (displaysWithin_clearAll c) operation
  | false =>
    cases hmode : c.options.mode with
    | expression => exact h.perform_of_expression hmode (hshown (Or.inl hmode))
    | sequential =>
      by_cases hrecall : operation = .press .recallMemory
      · subst hrecall
        exact h.recallMemory hmode (hshown (Or.inr rfl))
      · have hc : DisplayText c.display := hreachable.displayText (alarm_eq_none hstopped)
        have hnext := redisplays_perform hmode (h.entry hmode) hrecall
        exact h.of_redisplays hmode hpos hplaces hc hnext

end Calculator

end Keypad
