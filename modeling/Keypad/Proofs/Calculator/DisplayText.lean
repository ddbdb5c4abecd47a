import Keypad.Expression.Infix
import Keypad.Proofs.Calculator.Coherence
import Keypad.Proofs.Display.Characters

/-!
# What a running calculator displays

The display of a running calculator is built up in a few ways: a number is begun or continued by
one character, a result is written, a stored number is inserted, the sign in front is changed, or
the last character is dropped.  So whatever all of these keep holds of every display, by induction
over `DisplayText` and without another look at the keys.

## Main definitions

* `DisplayText`: the texts that come about in these ways
* `Calculator.Displays`: the calculator is stopped, or displays such a text

## Main results

* `Displays.perform`: every operation keeps to these ways
* `Reachable.displayText`: so does every run
-/

namespace Keypad

open Calculator in
/-- The texts on the display of a running calculator. -/
inductive DisplayText : Text → Prop where
  | zero : DisplayText zeroText
  /-- A point typed where a fresh number is awaited. -/
  | zeroPoint : DisplayText "0.".toList
  | digit {d : Char} (hd : d.isDigit = true) : DisplayText [d]
  | opening : DisplayText ['(']
  /-- One more character of a number or of an expression. -/
  | next {t : Text} {ch : Char} (ht : DisplayText t) (hch : isInfixChar ch = true) :
    DisplayText (eraseSeparators t ++ [ch])
  /-- A result, or a number recalled from the memory. -/
  | written (style : Style) {x : Binary64} (hx : x.isFinite = true) : DisplayText (style.write x)
  /-- A number recalled into an expression. -/
  | inserted {t : Text} (ht : DisplayText t) (places : Nat) {x : Binary64}
    (hx : x.isFinite = true) : DisplayText (eraseSeparators t ++ (Style.plain places).write x)
  | signed {t : Text} (ht : DisplayText t) : DisplayText (flipSign t)
  /-- The last character dropped, unless it is the only one. -/
  | shortened {t : Text} (ht : DisplayText t)
    (hlast : isLastCharacter (eraseSeparators t) = false) :
    DisplayText (eraseSeparators t).dropLast

namespace Calculator

/-- A calculator that is stopped or displays what running calculators do. -/
def Displays (c : Calculator) : Prop := c.alarm = none → DisplayText c.display

variable {c next : Calculator}

theorem displays_stop (c : Calculator) (fault : Fault) : Displays (c.stop fault) := nofun

theorem Displays.whenRunning (h : Displays c) (hnext : DisplayText c.display → Displays next) :
    Displays (c.whenRunning next) := by
  cases hstopped : c.isStopped with
  | true => rwa [whenRunning_of_stopped hstopped]
  | false =>
    rw [whenRunning_of_running hstopped]
    exact hnext (h (alarm_eq_none hstopped))

theorem displays_orStop {outcome : Except Fault Calculator}
    (hnext : ∀ next, outcome = .ok next → Displays next) : Displays (c.orStop outcome) := by
  cases outcome with
  | ok next => exact hnext next rfl
  | error fault => exact displays_stop c fault

/-! ## Typing and editing -/

theorem displays_enter {t : Text} (ht : DisplayText t)
    (hextended : DisplayText (c.buffer ++ t)) : Displays (c.enter t) := by
  intro _
  unfold enter
  split
  · exact ht
  · exact hextended

section Shown

variable (hc : DisplayText c.display)

include hc

theorem displays_typeDigit {d : Char} (hd : d.isDigit = true) : Displays (c.typeDigit d) := by
  intro _
  have hinfix : isInfixChar d = true := isInfixChar_of_isDigit hd
  have hfirst : DisplayText [d] := .digit hd
  have hnext : DisplayText (c.buffer ++ [d]) := .next hc hinfix
  unfold typeDigit
  cases hedit : c.editable? with
  | none => exact hfirst
  | some t =>
    obtain rfl : t = c.buffer := eq_buffer_of_editable? hedit
    dsimp only
    -- either limit drops the digit, and a lone zero is replaced by it
    split
    · exact hc
    split
    · exact hc
    split
    · exact hfirst
    · exact hnext

theorem displays_pointInNumber : Displays c.pointInNumber := by
  intro _
  unfold pointInNumber
  cases hedit : c.editable? with
  | none => exact .zeroPoint
  | some t =>
    obtain rfl : t = c.buffer := eq_buffer_of_editable? hedit
    dsimp only
    split
    · exact hc
    · exact .next hc (by decide)

theorem displays_pointInExpression : Displays c.pointInExpression := by
  intro _
  unfold pointInExpression
  split
  · exact hc
  · exact .next hc (by decide)

end Shown

theorem Displays.digit (h : Displays c) (d : Char) : Displays (c.digit d) := by
  refine h.whenRunning fun hc => ?_
  cases hd : d.isDigit with
  | false => exact displays_stop c _
  | true =>
    have hinfix : isInfixChar d = true := isInfixChar_of_isDigit hd
    cases c.options.mode with
    | sequential => exact displays_typeDigit hc hd
    | expression => exact displays_enter (.digit hd) (.next hc hinfix)

theorem Displays.point (h : Displays c) : Displays c.point := by
  refine h.whenRunning fun hc => ?_
  split
  · exact fun _ => .zeroPoint
  cases c.options.mode with
  | sequential => exact displays_pointInNumber hc
  | expression => exact displays_pointInExpression hc

theorem Displays.changeSign (h : Displays c) : Displays c.changeSign := by
  refine h.whenRunning fun hc => ?_
  split
  · exact h
  · exact fun _ => .signed hc

theorem Displays.backspace (h : Displays c) : Displays c.backspace := by
  refine h.whenRunning fun hc => ?_
  split
  · exact h
  split
  · exact fun _ => .zero
  · rename_i hlast
    exact fun _ => .shortened hc (Bool.eq_false_iff.mpr hlast)

theorem Displays.parenthesis (h : Displays c) (opening : Bool) :
    Displays (c.parenthesis opening) := by
  refine h.whenRunning fun hc => ?_
  cases c.options.mode with
  | sequential => exact h
  | expression =>
    cases opening with
    | true => exact displays_enter .opening (.next hc (by decide))
    | false => exact fun _ => .next hc (by decide)

theorem displays_clearAll (c : Calculator) : Displays c.clearAll := fun _ => .zero

theorem displays_clearEntry (c : Calculator) : Displays c.clearEntry := by
  unfold clearEntry
  split
  · exact displays_clearAll c
  · exact fun _ => .zero

/-! ## The chain -/

theorem Displays.advanceChain (h : Displays c) {op : Operator}
    (hnext : c.advanceChain op = .ok next) : Displays next := by
  unfold Calculator.advanceChain at hnext
  split at hnext
  · cases hnext
    exact h
  split at hnext
  · split at hnext
    · cases hnext
      exact h
    · -- a reduction is written, everything else leaves the display as it is
      obtain ⟨reduced, hreduced, hnext⟩ := bind_eq_ok_iff.mp hnext
      cases hnext
      exact fun _ => .written _ (isFinite_of_reduce hreduced)
  · cases hnext
    exact h
  · cases hnext
    exact h

theorem Displays.concludeChain (h : Displays c) (hnext : c.concludeChain = .ok next) :
    Displays next := by
  unfold Calculator.concludeChain at hnext
  split at hnext
  · split at hnext
    · cases hnext
      exact h
    · obtain ⟨result, hresult, hnext⟩ := bind_eq_ok_iff.mp hnext
      cases hnext
      exact fun _ => .written _ (isFinite_of_reduce hresult)
  · cases hnext
    exact h

theorem Displays.concludeExpression (h : Displays c) (hnext : c.concludeExpression = .ok next) :
    Displays next := by
  unfold Calculator.concludeExpression at hnext
  split at hnext
  · cases hnext
    exact h
  · obtain ⟨_, -, hnext⟩ := bind_eq_ok_iff.mp hnext
    obtain ⟨result, hresult, hnext⟩ := bind_eq_ok_iff.mp hnext
    cases hnext
    exact fun _ => .written _ (Binary64.isFinite_of_accept hresult)

theorem Displays.operator (h : Displays c) (op : Operator) : Displays (c.operator op) := by
  refine h.whenRunning fun hc => ?_
  cases c.options.mode with
  | sequential => exact displays_orStop fun _ hnext => h.advanceChain hnext
  | expression => exact fun _ => .next hc (Infix.isInfixChar_symbol op)

theorem Displays.operatorSymbol (h : Displays c) (symbol : Char) :
    Displays (c.operatorSymbol symbol) := by
  refine h.whenRunning fun _ => ?_
  split
  · exact h.operator _
  · exact displays_stop c _

theorem Displays.equals (h : Displays c) : Displays c.equals := by
  refine h.whenRunning fun _ => ?_
  cases c.options.mode with
  | sequential => exact displays_orStop fun _ hnext => h.concludeChain hnext
  | expression => exact displays_orStop fun _ hnext => h.concludeExpression hnext

/-! ## Percent, tax and memory -/

theorem Displays.convert (h : Displays c) (places : Nat)
    (f : Binary64 → Except Fault Binary64) : Displays (c.convert places f) := by
  refine h.whenRunning fun _ => displays_orStop fun next hnext => ?_
  obtain ⟨current, -, hnext⟩ := bind_eq_ok_iff.mp hnext
  cases current with
  | none =>
    cases hnext
    exact h
  | some current =>
    obtain ⟨_, -, hnext⟩ := bind_eq_ok_iff.mp hnext
    obtain ⟨result, hresult, hnext⟩ := bind_eq_ok_iff.mp hnext
    cases hnext
    exact fun _ => .written _ (Binary64.isFinite_of_accept hresult)

/-- The memory keys other than recall leave the display as it is. -/
theorem Displays.of_remembers (h : Displays c) (hnext : c.Remembers next) : Displays next := by
  rw [hnext]
  exact h

/-- What is recalled was stored as a finite number. -/
theorem Displays.recallMemory (h : Displays c) (hmemory : IsFiniteRegister c.memory) :
    Displays c.recallMemory := by
  refine h.whenRunning fun hc => ?_
  split
  · exact h
  · rename_i x hx
    have hfinite : x.isFinite = true := hmemory x hx
    cases c.options.mode with
    | sequential => exact fun _ => .written _ hfinite
    | expression => exact displays_enter (.written _ hfinite) (.inserted hc _ hfinite)

theorem Displays.accumulate (h : Displays c) (factor : Binary64) :
    Displays (c.accumulate factor) := by
  rcases accumulate_effect c factor with ⟨fault, hfails⟩ | hnext
  · rw [hfails]
    exact displays_stop c fault
  · exact h.of_remembers hnext

/-! ## Mode and options -/

theorem Displays.switchMode (h : Displays c) (mode : Mode) : Displays (c.switchMode mode) := by
  refine h.whenRunning fun hc => ?_
  split
  · exact h
  · intro _
    dsimp only
    split
    · exact .zero
    · exact hc

theorem Displays.configure (h : Displays c) (change : OptionsChange) :
    Displays (c.configure change) := by
  refine h.whenRunning fun _ => ?_
  have hconfigured :
      Displays { c with options := c.options.change { change with mode := none } } := h
  dsimp only
  split
  · exact hconfigured.switchMode _
  · exact hconfigured

/-! ## Runs -/

theorem Displays.press (h : Displays c) (hmemory : IsFiniteRegister c.memory) (key : Key) :
    Displays (c.press key) := by
  cases key with
  | digit d => exact h.digit d
  | point => exact h.point
  | operator op => exact h.operator op
  | equals => exact h.equals
  | percent => exact h.convert _ _
  | addTax => exact h.convert _ _
  | removeTax => exact h.convert _ _
  | changeSign => exact h.changeSign
  | backspace => exact h.backspace
  | clearEntry => exact displays_clearEntry c
  | clearAll => exact displays_clearAll c
  | storeMemory => exact h.of_remembers (remembers_storeMemory c)
  | recallMemory => exact h.recallMemory hmemory
  | addToMemory => exact h.accumulate _
  | subtractFromMemory => exact h.accumulate _
  | emptyMemory => exact h.of_remembers (remembers_emptyMemory c)
  | openParenthesis => exact h.parenthesis true
  | closeParenthesis => exact h.parenthesis false
  | mode mode => exact h.switchMode mode

/-- **Every operation displays what running calculators display**, if the stored number is
finite. -/
theorem Displays.perform (h : Displays c) (hmemory : IsFiniteRegister c.memory)
    (operation : Operation) : Displays (c.perform operation) := by
  cases operation with
  | press key => exact h.press hmemory key
  | operatorSymbol symbol => exact h.operatorSymbol symbol
  | configure change => exact h.configure change

theorem Reachable.displays (h : Reachable c) : Displays c := by
  induction h with
  | make options => exact fun _ => .zero
  | perform operation hreachable ih => exact ih.perform hreachable.coherent.finite_memory operation

/-- **What reachable calculators display** while they run. -/
theorem Reachable.displayText (h : Reachable c) (hrunning : c.alarm = none) :
    DisplayText c.display :=
  h.displays hrunning

end Calculator

end Keypad
