import Keypad.Proofs.Calculator.Along
import Keypad.Proofs.Calculator.DisplayCharacters
import Keypad.Proofs.Calculator.Frame
import Keypad.Proofs.Display.InDigits
import Keypad.Proofs.Expression.Fault

/-!
# Foreign characters in an expression

Of the characters on the display only the letter of an exponent is foreign to expressions, since
separators are dropped before the text is evaluated.  In expression mode no key brings that letter
onto the display: what is typed are characters of expressions, results are accepted values, and the
memory is recalled in plain notation.  In sequential mode it is brought there by the memory, and a
switch of mode that finds it on the display carries it into the expression.  Then an operator and
equals stop the calculator for a foreign character, and without such a switch nothing does.

## Main definitions

* `Calculator.CarriesExponent`: a switch to expression mode that finds an exponent on the display
* `Calculator.IsSpelled`: no exponent in an expression, and no stop for a foreign character

## Main results

* `IsSpelled.perform`: every operation keeps a calculator spelled, unless it carries an exponent
  over
* `isSpelled_performAll`: so does every run
* `CarriesExponent.alarm_equals`: after an exponent was carried over, an operator and equals stop
-/

namespace Keypad

namespace Calculator

variable {c next : Calculator} {t : Text}

/-- A change from sequential to expression mode that finds an exponent on the display. -/
def CarriesExponent (c : Calculator) (operation : Operation) : Prop :=
  c.alarm = none ∧ c.options.mode = .sequential ∧
    (c.perform operation).options.mode = .expression ∧ 'e' ∈ c.display

instance (c : Calculator) (operation : Operation) : Decidable (c.CarriesExponent operation) :=
  inferInstanceAs (Decidable (_ ∧ _ ∧ _ ∧ _))

/-- The message of a foreign character. -/
def foreignMessage : Text := "Invalid character".toList

/-- No exponent stands in an expression, and the calculator was not stopped for a foreign
character. -/
structure IsSpelled (c : Calculator) : Prop where
  plain : c.alarm = none → c.options.mode = .expression → 'e' ∉ c.display
  spelled : ∀ alarm, c.alarm = some alarm → alarm.message ≠ foreignMessage

theorem isSpelled_of_running (hrunning : next.alarm = none)
    (h : next.options.mode = .expression → 'e' ∉ next.display) : IsSpelled next where
  plain _ := h
  spelled alarm halarm := by rw [hrunning] at halarm; cases halarm

theorem isSpelled_stop (c : Calculator) {fault : Fault} (h : fault.isForeign = false) :
    IsSpelled (c.stop fault) where
  plain := nofun
  spelled := by
    rintro _ ⟨⟩ hmessage
    have hforeign := fault.message_eq_iff.mp hmessage
    rw [h] at hforeign
    cases hforeign

theorem exponent_notMem_zeroText : 'e' ∉ zeroText := by decide

theorem isSpelled_make (options : Options) : IsSpelled (make options) :=
  isSpelled_of_running rfl fun _ => exponent_notMem_zeroText

theorem isSpelled_clearAll (c : Calculator) : IsSpelled c.clearAll :=
  isSpelled_of_running rfl fun _ => exponent_notMem_zeroText

theorem isSpelled_orStop {outcome : Except Fault Calculator}
    (hok : ∀ next, outcome = .ok next → IsSpelled next)
    (herror : ∀ fault, outcome = .error fault → fault.isForeign = false) :
    IsSpelled (c.orStop outcome) := by
  cases outcome with
  | ok next => exact hok next rfl
  | error fault => exact isSpelled_stop c (herror fault rfl)

/-! ## Expressions on the display -/

theorem exponent_notMem_of_isInfixChar (h : ∀ ch ∈ t, isInfixChar ch = true) : 'e' ∉ t :=
  fun hmem => absurd (h 'e' hmem) (by decide)

theorem exponent_notMem_extend (hc : 'e' ∉ c.display) (ht : 'e' ∉ t) :
    'e' ∉ (c.extend t).display := by
  intro hmem
  rcases List.mem_append.mp hmem with hmem | hmem
  · exact hc (mem_of_mem_eraseSeparators hmem)
  · exact ht hmem

theorem exponent_notMem_enter (hc : 'e' ∉ c.display) (ht : 'e' ∉ t) :
    'e' ∉ (c.enter t).display := by
  unfold enter
  split
  · exact ht
  · exact exponent_notMem_extend hc ht

/-- Without an exponent, all that a display hides from an expression are separators. -/
theorem isInfixChar_of_mem_buffer (hc : DisplayText c.display) (hplain : 'e' ∉ c.display) :
    ∀ ch ∈ c.buffer, isInfixChar ch = true := by
  intro ch hch
  have hmem := mem_of_mem_eraseSeparators hch
  rcases isDisplayChar_iff.mp (hc.isDisplayChar ch hmem) with h | rfl | rfl
  · exact h
  · exact absurd hch (separator_notMem_eraseSeparators _)
  · exact absurd hmem hplain

theorem isForeign_of_accept {places : Nat} {x : Binary64} {fault : Fault}
    (h : x.accept places = .error fault) : fault.isForeign = false := by
  rw [((Binary64.accept_eq_error_iff _ _ _).mp h).1]
  rfl

theorem isForeign_of_reduce {op : Operator} {left right : Binary64} {fault : Fault}
    (h : c.reduce op left right = .error fault) : fault.isForeign = false := by
  rcases bind_eq_error_iff.mp h with happly | ⟨_, -, haccept⟩
  · exact isForeign_of_apply happly
  · exact isForeign_of_accept haccept

/-- The memory keys other than recall change neither the display nor the alarm. -/
theorem IsSpelled.of_remembers (h : IsSpelled c) (hnext : c.Remembers next) : IsSpelled next := by
  rw [hnext]
  exact ⟨h.plain, h.spelled⟩

/-- What a chain displays is not an expression. -/
theorem isSpelled_of_sequential (hrunning : next.alarm = none)
    (hmode : next.options.mode = .sequential) : IsSpelled next :=
  isSpelled_of_running hrunning fun hexpression => by rw [hmode] at hexpression; cases hexpression

/-! ## Chains -/

/-- An operator fails in a chain as the operator that was pending. -/
theorem isSpelled_advanceChain (hrunning : c.alarm = none) (hmode : c.options.mode = .sequential)
    (op : Operator) : IsSpelled (c.orStop (c.advanceChain op)) := by
  refine isSpelled_orStop (fun next hnext => ?_) fun fault hfault => ?_
  · have hcomputes := computes_advanceChain hnext
    have hoptions : next.options = c.options :=
      (congrArg Calculator.options hcomputes).trans rfl
    exact isSpelled_of_sequential ((congrArg Calculator.alarm hcomputes).trans hrunning)
      (hoptions ▸ hmode)
  · unfold advanceChain at hfault
    split at hfault
    · cases hfault
    split at hfault
    · split at hfault
      · cases hfault
      rcases bind_eq_error_iff.mp hfault with hreduce | ⟨_, -, hfault⟩
      · exact isForeign_of_reduce hreduce
      · cases hfault
    · cases hfault
    · cases hfault

theorem isSpelled_concludeChain (hrunning : c.alarm = none) (hmode : c.options.mode = .sequential) :
    IsSpelled (c.orStop c.concludeChain) := by
  refine isSpelled_orStop (fun next hnext => ?_) fun fault hfault => ?_
  · have hconcludes := concludes_concludeChain hnext
    have hoptions : next.options = c.options :=
      (congrArg Calculator.options hconcludes).trans rfl
    exact isSpelled_of_sequential ((congrArg Calculator.alarm hconcludes).trans hrunning)
      (hoptions ▸ hmode)
  · unfold concludeChain at hfault
    split at hfault
    · split at hfault
      · cases hfault
      rcases bind_eq_error_iff.mp hfault with hreduce | ⟨_, -, hfault⟩
      · exact isForeign_of_reduce hreduce
      · cases hfault
    · cases hfault

/-! ## Operations of a running calculator -/

section Running

variable (h : IsSpelled c) (hrunning : c.alarm = none)

include h hrunning

/-- An edit is to bring no exponent into an expression. -/
theorem IsSpelled.of_edits (hedits : c.Edits next)
    (hdisplay : c.options.mode = .expression → 'e' ∉ c.display → 'e' ∉ next.display) :
    IsSpelled next := by
  have halarm : next.alarm = none := (congrArg Calculator.alarm hedits).trans hrunning
  have hoptions : next.options = c.options := (congrArg Calculator.options hedits).trans rfl
  refine isSpelled_of_running halarm fun hexpression => ?_
  rw [hoptions] at hexpression
  exact hdisplay hexpression (h.plain hrunning hexpression)

theorem IsSpelled.digit (d : Char) : IsSpelled (c.digit d) := by
  cases hd : d.isDigit with
  | false =>
    rw [Calculator.digit, whenRunning_of_running (isStopped_eq_false hrunning), hd]
    exact isSpelled_stop c rfl
  | true =>
    refine h.of_edits hrunning (edits_digit c hd) fun hmode hc => ?_
    have hplain : 'e' ∉ [d] := exponent_notMem_of_isInfixChar (by simp [isInfixChar_of_isDigit hd])
    rw [Calculator.digit, whenRunning_of_running (isStopped_eq_false hrunning), hd, hmode]
    exact exponent_notMem_enter hc hplain

theorem IsSpelled.point : IsSpelled c.point := by
  refine h.of_edits hrunning (edits_point c) fun hmode hc => ?_
  rw [Calculator.point, whenRunning_of_running (isStopped_eq_false hrunning)]
  split
  · exact (by decide : 'e' ∉ "0.".toList)
  rw [hmode]
  show 'e' ∉ c.pointInExpression.display
  unfold pointInExpression
  split
  · exact hc
  · exact exponent_notMem_extend hc (by decide)

theorem IsSpelled.changeSign : IsSpelled c.changeSign := by
  refine h.of_edits hrunning (edits_changeSign c) fun _ hc => ?_
  rw [Calculator.changeSign, whenRunning_of_running (isStopped_eq_false hrunning)]
  split
  · exact hc
  · exact fun hmem => hc ((mem_flipSign hmem).resolve_left (by decide))

theorem IsSpelled.backspace : IsSpelled c.backspace := by
  refine h.of_edits hrunning (edits_backspace c) fun _ hc => ?_
  rw [Calculator.backspace, whenRunning_of_running (isStopped_eq_false hrunning)]
  split
  · exact hc
  split
  · exact exponent_notMem_zeroText
  · exact fun hmem => hc (mem_of_mem_eraseSeparators (List.mem_of_mem_dropLast hmem))

theorem IsSpelled.clearEntry : IsSpelled c.clearEntry := by
  rw [Calculator.clearEntry, isStopped_eq_false hrunning]
  exact h.of_edits hrunning (edits_awaiting c) fun _ _ => exponent_notMem_zeroText

theorem IsSpelled.parenthesis (opening : Bool) : IsSpelled (c.parenthesis opening) := by
  refine h.of_edits hrunning (edits_parenthesis c opening) fun hmode hc => ?_
  rw [Calculator.parenthesis, whenRunning_of_running (isStopped_eq_false hrunning), hmode]
  cases opening with
  | true => exact exponent_notMem_enter hc (by decide)
  | false => exact exponent_notMem_extend hc (by decide)

/-- In expression mode the memory is recalled in plain notation. -/
theorem IsSpelled.recallMemory (hmemory : IsFiniteRegister c.memory) :
    IsSpelled c.recallMemory := by
  refine h.of_edits hrunning (edits_recallMemory c) fun hmode hc => ?_
  rw [Calculator.recallMemory, whenRunning_of_running (isStopped_eq_false hrunning)]
  split
  · exact hc
  · rename_i x hx
    rw [hmode]
    exact exponent_notMem_enter hc (exponent_notMem_plain _ (hmemory x hx))

/-- Without an exponent the display is evaluated without a foreign character. -/
theorem IsSpelled.isForeign_of_operand (hc : DisplayText c.display) {fault : Fault}
    (hoperand : c.operand = .error fault) : fault.isForeign = false := by
  unfold operand at hoperand
  split at hoperand
  · cases hoperand
  · cases hoperand
  · rename_i hmode _
    have hplain := h.plain hrunning hmode
    exact isForeign_of_evaluate (isInfixChar_of_mem_buffer hc hplain)
      (map_eq_error_iff.mp hoperand)

theorem IsSpelled.convert (hc : DisplayText c.display) (places : Nat)
    {f : Binary64 → Except Fault Binary64}
    (hf : ∀ x fault, f x = .error fault → fault.isForeign = false) :
    IsSpelled (c.convert places f) := by
  rw [Calculator.convert, whenRunning_of_running (isStopped_eq_false hrunning)]
  -- it fails with the text on the display, with the conversion, or where its result is accepted
  refine isSpelled_orStop (fun next hnext => ?_) fun fault hfault => ?_
  · obtain ⟨current, -, hnext⟩ := bind_eq_ok_iff.mp hnext
    cases current with
    | none =>
      cases hnext
      exact h
    | some current =>
      obtain ⟨_, -, hnext⟩ := bind_eq_ok_iff.mp hnext
      obtain ⟨result, hresult, hnext⟩ := bind_eq_ok_iff.mp hnext
      cases hnext
      have hwritten : 'e' ∉ { c.style with places := places }.write result :=
        exponent_notMem_write_of_accept hresult
      exact h.of_edits hrunning (edits_typing c _) fun _ _ => hwritten
  · rcases bind_eq_error_iff.mp hfault with hoperand | ⟨current, -, hfault⟩
    · exact h.isForeign_of_operand hrunning hc hoperand
    cases current with
    | none => cases hfault
    | some current =>
      rcases bind_eq_error_iff.mp hfault with hvalue | ⟨_, -, hfault⟩
      · exact hf _ _ hvalue
      rcases bind_eq_error_iff.mp hfault with haccept | ⟨_, -, hfault⟩
      · exact isForeign_of_accept haccept
      · cases hfault

/-- An operator is typed into an expression, and reduces a chain otherwise. -/
theorem IsSpelled.operator (op : Operator) : IsSpelled (c.operator op) := by
  rw [Calculator.operator, whenRunning_of_running (isStopped_eq_false hrunning)]
  cases hmode : c.options.mode with
  | expression =>
    refine h.of_edits hrunning (edits_typing c _) fun _ hc => ?_
    refine exponent_notMem_extend hc (exponent_notMem_of_isInfixChar ?_)
    simp [Infix.isInfixChar_symbol]
  | sequential => exact isSpelled_advanceChain hrunning hmode op

theorem IsSpelled.operatorSymbol (symbol : Char) : IsSpelled (c.operatorSymbol symbol) := by
  rw [Calculator.operatorSymbol, whenRunning_of_running (isStopped_eq_false hrunning)]
  split
  · exact h.operator hrunning _
  · exact isSpelled_stop c rfl

theorem IsSpelled.concludeExpression (hc : DisplayText c.display)
    (hmode : c.options.mode = .expression) : IsSpelled (c.orStop c.concludeExpression) := by
  refine isSpelled_orStop (fun next hnext => ?_) fun fault hfault => ?_
  · unfold Calculator.concludeExpression at hnext
    split at hnext
    · cases hnext
      exact h
    · obtain ⟨_, -, hnext⟩ := bind_eq_ok_iff.mp hnext
      obtain ⟨result, hresult, hnext⟩ := bind_eq_ok_iff.mp hnext
      cases hnext
      have hwritten : 'e' ∉ c.style.write result := exponent_notMem_write_of_accept hresult
      exact isSpelled_of_running hrunning fun _ => hwritten
  · unfold Calculator.concludeExpression at hfault
    split at hfault
    · cases hfault
    rcases bind_eq_error_iff.mp hfault with hvalue | ⟨_, -, hfault⟩
    · have hbuffer := isInfixChar_of_mem_buffer hc (h.plain hrunning hmode)
      exact isForeign_of_evaluate (fun ch hch => hbuffer ch (List.mem_filter.mp hch).1) hvalue
    rcases bind_eq_error_iff.mp hfault with haccept | ⟨_, -, hfault⟩
    · exact isForeign_of_accept haccept
    · cases hfault

theorem IsSpelled.equals (hc : DisplayText c.display) : IsSpelled c.equals := by
  rw [Calculator.equals, whenRunning_of_running (isStopped_eq_false hrunning)]
  cases hmode : c.options.mode with
  | expression => exact h.concludeExpression hrunning hc hmode
  | sequential => exact isSpelled_concludeChain hrunning hmode

theorem IsSpelled.accumulate (factor : Binary64) : IsSpelled (c.accumulate factor) := by
  rw [Calculator.accumulate, whenRunning_of_running (isStopped_eq_false hrunning)]
  split
  · exact h
  split
  · exact h.of_remembers rfl
  · rename_i haccept
    exact isSpelled_stop c (isForeign_of_accept haccept)

/-- A change of mode or of options leaves the display as it is, or replaces it by zero. -/
theorem IsSpelled.of_switch {operation : Operation} (hno : ¬ c.CarriesExponent operation)
    (halarm : (c.perform operation).alarm = none)
    (hdisplay : (c.perform operation).display = c.display ∨
      (c.perform operation).display = zeroText) : IsSpelled (c.perform operation) := by
  refine isSpelled_of_running halarm fun hexpression => ?_
  rcases hdisplay with hsame | hzero
  · rw [hsame]
    cases hmode : c.options.mode with
    | expression => exact h.plain hrunning hmode
    | sequential => exact fun hmem => hno ⟨hrunning, hmode, hexpression, hmem⟩
  · rw [hzero]
    exact exponent_notMem_zeroText

end Running

theorem display_switchMode_cases (c : Calculator) (mode : Mode) :
    (c.switchMode mode).display = c.display ∨ (c.switchMode mode).display = zeroText := by
  refine whenRunning_cases (P := fun d => d.display = c.display ∨ d.display = zeroText)
    (Or.inl rfl) ?_
  split
  · exact Or.inl rfl
  · dsimp only
    split
    · exact Or.inr rfl
    · exact Or.inl rfl

theorem display_configure_cases (c : Calculator) (change : OptionsChange) :
    (c.configure change).display = c.display ∨ (c.configure change).display = zeroText := by
  refine whenRunning_cases (P := fun d => d.display = c.display ∨ d.display = zeroText)
    (Or.inl rfl) ?_
  dsimp only
  split
  · exact display_switchMode_cases _ _
  · exact Or.inl rfl

/-! ## Runs -/

theorem IsSpelled.press (h : IsSpelled c) (hreachable : Reachable c) (hrunning : c.alarm = none)
    {key : Key} (hno : ¬ c.CarriesExponent (.press key)) : IsSpelled (c.press key) := by
  have hc : DisplayText c.display := hreachable.displayText hrunning
  cases key with
  | digit d => exact h.digit hrunning d
  | point => exact h.point hrunning
  | operator op => exact h.operator hrunning op
  | equals => exact h.equals hrunning hc
  | percent => exact h.convert hrunning hc _ fun _ _ hfault => by cases hfault
  | addTax => exact h.convert hrunning hc _ fun _ _ hfault => by cases hfault
  | removeTax =>
    refine h.convert hrunning hc _ fun x fault hfault => ?_
    split at hfault
    · cases hfault
      rfl
    · cases hfault
  | changeSign => exact h.changeSign hrunning
  | backspace => exact h.backspace hrunning
  | clearEntry => exact h.clearEntry hrunning
  | clearAll => exact isSpelled_clearAll c
  | storeMemory => exact h.of_remembers (remembers_storeMemory c)
  | recallMemory => exact h.recallMemory hrunning hreachable.coherent.finite_memory
  | addToMemory => exact h.accumulate hrunning _
  | subtractFromMemory => exact h.accumulate hrunning _
  | emptyMemory => exact h.of_remembers (remembers_emptyMemory c)
  | openParenthesis => exact h.parenthesis hrunning true
  | closeParenthesis => exact h.parenthesis hrunning false
  | mode mode =>
    have halarm : (c.switchMode mode).alarm = none :=
      (congrArg Calculator.alarm (reconfigures_switchMode c mode).frame).trans hrunning
    exact h.of_switch hrunning hno halarm (display_switchMode_cases c mode)

/-- **Every operation keeps a calculator spelled**, unless it carries an exponent over. -/
theorem IsSpelled.perform (h : IsSpelled c) (hreachable : Reachable c) {operation : Operation}
    (hno : ¬ c.CarriesExponent operation) : IsSpelled (c.perform operation) := by
  cases hstopped : c.isStopped with
  | true => exact perform_cases_of_stopped hstopped h (isSpelled_clearAll c) operation
  | false =>
    have hrunning : c.alarm = none := alarm_eq_none hstopped
    cases operation with
    | press key => exact h.press hreachable hrunning hno
    | operatorSymbol symbol => exact h.operatorSymbol hrunning symbol
    | configure change =>
      have halarm : (c.configure change).alarm = none :=
        (congrArg Calculator.alarm (reconfigures_configure c change).frame).trans hrunning
      exact h.of_switch hrunning hno halarm (display_configure_cases c change)

/-- **A run that carries no exponent over stays spelled.** -/
theorem isSpelled_performAll (options : Options) {operations : List Operation}
    (hno : (make options).Along (fun c operation => ¬ c.CarriesExponent operation) operations) :
    IsSpelled ((make options).performAll operations) :=
  hno.of_step (fun _ _ hreachable hstep h => h.perform hreachable hstep) (.make options)
    (isSpelled_make options)

/-! ## A carried exponent -/

/-- Only on the way back to sequential mode a display is replaced. -/
theorem display_switchMode_of_expression {mode : Mode}
    (h : (c.switchMode mode).options.mode = .expression) :
    (c.switchMode mode).display = c.display := by
  unfold switchMode whenRunning at h ⊢
  split
  · rfl
  rename_i hrunning
  rw [if_neg hrunning] at h
  split
  · rfl
  rename_i hother
  rw [if_neg hother] at h
  refine if_neg fun hback => ?_
  have hmode : mode = .expression := h
  rw [hmode] at hback
  cases hback.1

theorem display_configure_of_expression {change : OptionsChange}
    (h : (c.configure change).options.mode = .expression) :
    (c.configure change).display = c.display := by
  unfold configure whenRunning at h ⊢
  split
  · rfl
  rename_i hrunning
  rw [if_neg hrunning] at h
  dsimp only at h ⊢
  split
  · rename_i mode hmode
    rw [hmode] at h
    exact display_switchMode_of_expression h
  · rfl

/-- What carries an exponent over leaves it on the display of a running calculator. -/
theorem CarriesExponent.perform {operation : Operation} (h : c.CarriesExponent operation) :
    (c.perform operation).alarm = none ∧ (c.perform operation).options.mode = .expression ∧
      'e' ∈ (c.perform operation).display := by
  obtain ⟨hrunning, hmode, hexpression, hmem⟩ := h
  have hswitches : operation.switchesMode = true := by
    by_contra hnot
    rw [options_perform c (Bool.eq_false_iff.mpr hnot), hmode] at hexpression
    cases hexpression
  -- that leaves the mode key and a change of options, which do not fail
  have hdisplay : (c.perform operation).display = c.display ∧ operation.canFail = false := by
    cases operation with
    | press key =>
      cases key with
      | mode mode => exact ⟨display_switchMode_of_expression hexpression, rfl⟩
      | _ => cases hswitches
    | operatorSymbol symbol => cases hswitches
    | configure change => exact ⟨display_configure_of_expression hexpression, rfl⟩
  exact ⟨(perform_failure hrunning operation).2 hdisplay.2, hexpression, hdisplay.1 ▸ hmem⟩

/-- In an expression an exponent is refused: an operator is typed behind it, and equals stops. -/
theorem alarm_equals_of_exponent (hrunning : c.alarm = none)
    (hmode : c.options.mode = .expression) (hmem : 'e' ∈ c.display) (op : Operator) :
    ((c.operator op).equals).alarm = some ⟨.invalidToken, foreignMessage⟩ := by
  have htyped : c.operator op = c.extend [op.symbol] := by
    rw [Calculator.operator, whenRunning_of_running (isStopped_eq_false hrunning), hmode]
  -- the letter is neither a separator nor a blank, so it is still there when the text is checked
  have hkept : 'e' ∈ (c.extend [op.symbol]).buffer := by
    have hbuffer : 'e' ∈ c.buffer := List.mem_filter.mpr ⟨hmem, by decide⟩
    refine List.mem_filter.mpr ⟨List.mem_append_left _ hbuffer, by decide⟩
  have hsource : 'e' ∈ withoutBlanks (c.extend [op.symbol]).buffer :=
    List.mem_filter.mpr ⟨hkept, by decide⟩
  obtain ⟨found, hrefused⟩ :=
    exists_evaluate_eq_invalidCharacter hsource (by decide) (by decide)
  have hconclude : (c.extend [op.symbol]).concludeExpression =
      .error (.invalidCharacter found) := by
    have hfresh : (c.extend [op.symbol]).fresh = false := rfl
    rw [concludeExpression, hfresh, if_neg Bool.false_ne_true]
    dsimp only
    rw [hrefused]
    rfl
  have hrunning' : (c.extend [op.symbol]).isStopped = false := isStopped_eq_false hrunning
  have hmode' : (c.extend [op.symbol]).options.mode = .expression := hmode
  rw [htyped, equals_of_expression hrunning' hmode', hconclude]
  rfl

/-- **A carried exponent stops the calculator** at the next equals. -/
theorem CarriesExponent.alarm_equals {operation : Operation} (h : c.CarriesExponent operation)
    (op : Operator) : (((c.perform operation).operator op).equals).alarm =
      some ⟨.invalidToken, foreignMessage⟩ := by
  obtain ⟨hrunning, hmode, hmem⟩ := h.perform
  exact alarm_equals_of_exponent hrunning hmode hmem op

/-! ## All runs -/

/-- **When a run meets a foreign character.**  A run along which no change to expression mode finds
an exponent on the display never stops the calculator for a foreign character, and in expression
mode whatever it leaves there passes the check of characters.  Where a run ends before a change that
does find one, that change, any operator and equals stop the calculator for a foreign character. -/
theorem foreign_performAll (options : Options) (operations : List Operation) :
    let c := (make options).performAll operations
    ((make options).Along (fun c operation => ¬ c.CarriesExponent operation) operations →
        (∀ alarm, c.alarm = some alarm → alarm.message ≠ foreignMessage) ∧
          (c.alarm = none → c.options.mode = .expression →
            checkCharacters (withoutBlanks c.buffer) = .ok ())) ∧
      ∀ operation op, c.CarriesExponent operation →
        (c.performAll [operation, .press (.operator op), .press .equals]).alarm =
          some ⟨.invalidToken, foreignMessage⟩ := by
  intro c
  refine ⟨fun hno => ?_, fun operation op hcarries => hcarries.alarm_equals op⟩
  have hspelled : IsSpelled c := isSpelled_performAll options hno
  refine ⟨hspelled.spelled, fun hrunning hmode => checkCharacters_of_all fun ch hch => ?_⟩
  have hc : DisplayText c.display :=
    ((Reachable.make options).performAll operations).displayText hrunning
  exact isInfixChar_of_mem_buffer hc (hspelled.plain hrunning hmode) ch (List.mem_filter.mp hch).1

/-- The keys that store `10 ^ 12` in expression mode and recall it in sequential mode. -/
def exponentKeys : List Key :=
  .digit '1' :: List.replicate 12 (.digit '0') ++ [.storeMemory, .mode .sequential, .recallMemory]

/-- Up to the recalled `1.00e+12` nothing is carried over, and the next switch carries it. -/
theorem foreign_performAll_recalled :
    let options : Options := { Options.standard with scientific := true, mode := .expression }
    let operations := exponentKeys.map Operation.press
    let c := (make options).performAll operations
    (make options).Along (fun c operation => ¬ c.CarriesExponent operation) operations ∧
      (∀ alarm, c.alarm = some alarm → alarm.message ≠ foreignMessage) ∧
      c.CarriesExponent (.press (.mode .expression)) ∧
      (c.performAll [.press (.mode .expression), .press (.operator .over), .press .equals]).alarm =
        some ⟨.invalidToken, foreignMessage⟩ := by
  intro options operations c
  have hno : (make options).Along (fun c operation => ¬ c.CarriesExponent operation)
      operations := by decide +kernel
  have hcarries : c.CarriesExponent (.press (.mode .expression)) := by decide +kernel
  have hrun := foreign_performAll options operations
  exact ⟨hno, (hrun.1 hno).1, hcarries, hrun.2 _ .over hcarries⟩

/-- **The slip**: back in expression mode the recalled `1.00e+12` is left on the display, so
dividing it by ten, with nothing but keys for digits and operators pressed, meets a foreign
character. -/
theorem alarm_divided_exponent :
    let options : Options := { Options.standard with scientific := true, mode := .expression }
    let keys := exponentKeys ++
      [.mode .expression, .operator .over, .digit '1', .digit '0', .equals]
    (∀ d, Key.digit d ∈ keys → d.isDigit = true) ∧
      ((make options).pressAll exponentKeys).display = "1.00e+12".toList ∧
      ((make options).pressAll keys).alarm = some ⟨.invalidToken, "Invalid character".toList⟩ := by
  intro options keys
  refine ⟨fun d hd => ?_, by decide +kernel, by decide +kernel⟩
  have hpressed : d = '1' ∨ d = '0' ∨ d = '1' ∨ d = '0' := by
    simpa [keys, exponentKeys] using hd
  rcases hpressed with rfl | rfl | rfl | rfl <;> rfl

end Calculator

end Keypad
