import Keypad.Proofs.Calculator.ShowsNumber

/-!
# Taking back what was typed

A key that types a character puts it behind what is displayed, or is dropped.  Behind the sign there
is a digit or a parenthesis already, so the typed character is never the last one, and backspace
drops it and nothing else.  What it does not bring back are separators: they go when a character is
typed.

## Main definitions

* `Key.typesIn`: the keys that type one character
* `Calculator.Adds`: what such a key makes of a calculator
* `Calculator.IsTyping`: something other than zero is being typed

## Main results

* `Reachable.hasEntry`: what is being typed in a chain is a number
* `IsTyping.adds_press`: a key that types a character adds one, or is dropped
* `backspace_press`: backspace takes such a key back
* `IsTyping.backspaces_pressAll`: a run of such keys is taken back by as many backspaces as
  characters were typed
-/

namespace Keypad

/-- The keys that type one character: operators and parentheses do so in expressions only. -/
def Key.typesIn (mode : Mode) : Key → Bool
  | .digit d => d.isDigit
  | .point => true
  | .operator _ => mode == .expression
  | .openParenthesis => mode == .expression
  | .closeParenthesis => mode == .expression
  | _ => false

/-- Behind a first character of an operand another one is not the last that is left. -/
theorem OpensOperand.isLastCharacter_append {t : Text} (h : OpensOperand t) (ch : Char) :
    Calculator.isLastCharacter (t ++ [ch]) = false := by
  obtain ⟨negative, d, rest, rfl, hd⟩ := h
  have hminus : d ≠ '-' := ne_minus_of_beginsOperand hd
  cases negative with
  | true => simp [Calculator.isLastCharacter, signText]
  | false => simp [Calculator.isLastCharacter, signText, hminus]

namespace Calculator

variable {c : Calculator} {key : Key}

/-! ## What is being typed in a chain -/

/-- **What is being typed in a chain is a number**, whatever else the display shows. -/
theorem Reachable.hasEntry (h : Reachable c) :
    c.options.mode = .sequential → c.HasEntry fun _ => True := by
  induction h with
  | make options => exact fun _ => hasEntry_of_fresh rfl
  | @perform c operation hreachable ih =>
    cases hstopped : c.isStopped with
    | true =>
      exact perform_cases_of_stopped
        (P := fun c => c.options.mode = .sequential → c.HasEntry fun _ => True)
        hstopped ih (fun _ => hasEntry_of_fresh rfl) operation
    | false =>
      intro hnext
      cases hmode : c.options.mode with
      | expression =>
        -- a switch back to a chain awaits a fresh number
        intro hfresh
        obtain ⟨n, hn, -⟩ :=
          (showsNumber_perform_of_expression hstopped hmode operation).entry hnext hfresh
        exact ⟨n, hn, trivial⟩
      | sequential =>
        by_cases hrecall : operation = .press .recallMemory
        · subst hrecall
          show c.recallMemory.HasEntry _
          rcases recallMemory_eq_or_fresh hmode with hsame | hfresh
          · rw [hsame]
            exact ih hmode
          · exact hasEntry_of_fresh hfresh
        · have htidy := (hreachable.displayText (alarm_eq_none hstopped)).isTidy
          refine (redisplays_perform hmode (ih hmode) hrecall).hasEntry (ih hmode) htidy
            (fun _ _ => trivial) (fun _ _ _ _ => trivial) fun style v r _ hr => ?_
          obtain ⟨n, hn⟩ := exists_displayNumber_of_accept hr
          exact ⟨n, hn, trivial⟩

/-! ## One key -/

/-- A character is put behind what is displayed, or none is. -/
inductive Adds (c : Calculator) : Calculator → Prop where
  | dropped : Adds c c
  | typed {ch : Char} (hch : isInfixChar ch = true) : Adds c (c.typing (c.buffer ++ [ch]))

/-- The character is no separator, so it is there once separators are left out. -/
theorem buffer_typing_append {ch : Char} (hch : isInfixChar ch = true) :
    (c.typing (c.buffer ++ [ch])).buffer = c.buffer ++ [ch] := by
  refine buffer_typing fun hmem => ?_
  rcases List.mem_append.mp hmem with hmem | hmem
  · exact separator_notMem_eraseSeparators _ hmem
  · exact ne_separator_of_isInfixChar hch (List.mem_singleton.mp hmem).symm

/-- A reachable calculator in which something other than zero is being typed. -/
structure IsTyping (c : Calculator) : Prop where
  reachable : Reachable c
  running : c.alarm = none
  entry : c.fresh = false
  nonzero : c.display ≠ zeroText

namespace IsTyping

variable (h : c.IsTyping)

include h

theorem isStopped : c.isStopped = false := isStopped_eq_false h.running

theorem opensOperand_buffer : OpensOperand c.buffer :=
  (h.reachable.displayText h.running).opensOperand

theorem buffer_ne_zeroText : c.buffer ≠ zeroText := fun hzero =>
  have htidy := (h.reachable.displayText h.running).isTidy
  h.nonzero ((htidy.eraseSeparators_eq_singleton_iff '0').mp hzero).1

/-- A number being typed has no exponent, so it can be continued. -/
theorem editable?_eq (hmode : c.options.mode = .sequential) : c.editable? = some c.buffer := by
  obtain ⟨n, hn, -⟩ := h.reachable.hasEntry hmode h.entry
  have hexponent : 'e' ∉ c.display := exponent_notMem_of_eraseSeparators hn
  simp [editable?, h.entry, hexponent]

theorem enter_eq (t : Text) : c.enter t = c.extend t := by
  simp [enter, h.entry, h.nonzero]

theorem adds_digit {d : Char} (hd : d.isDigit = true) : c.Adds (c.digit d) := by
  have hinfix : isInfixChar d = true := isInfixChar_of_isDigit hd
  rw [digit, whenRunning_of_running h.isStopped, hd]
  cases hmode : c.options.mode with
  | expression =>
    show c.Adds (c.enter [d])
    rw [h.enter_eq]
    exact .typed hinfix
  | sequential =>
    -- either limit drops the digit; a lone zero, which it would replace, is not displayed
    simp only [Bool.not_true, Bool.false_eq_true, if_false, typeDigit, h.editable?_eq hmode,
      h.buffer_ne_zeroText]
    split
    · exact .dropped
    split
    · exact .dropped
    · exact .typed hinfix

theorem adds_point : c.Adds c.point := by
  rw [point, whenRunning_of_running h.isStopped, h.entry, if_neg Bool.false_ne_true]
  cases hmode : c.options.mode with
  | expression =>
    simp only [pointInExpression]
    split
    · exact .dropped
    · exact .typed rfl
  | sequential =>
    simp only [pointInNumber, h.editable?_eq hmode]
    split
    · exact .dropped
    · exact .typed rfl

theorem adds_operator (hmode : c.options.mode = .expression) (op : Operator) :
    c.Adds (c.operator op) := by
  rw [operator, whenRunning_of_running h.isStopped, hmode]
  exact .typed (by simp [Infix.isInfixChar_symbol])

theorem adds_parenthesis (hmode : c.options.mode = .expression) (opening : Bool) :
    c.Adds (c.parenthesis opening) := by
  rw [parenthesis, whenRunning_of_running h.isStopped, hmode]
  cases opening with
  | false => exact .typed rfl
  | true =>
    show c.Adds (c.enter ['('])
    rw [h.enter_eq]
    exact .typed rfl

/-- **A key that types a character** puts it behind what is displayed, or is dropped. -/
theorem adds_press (hkey : key.typesIn c.options.mode = true) : c.Adds (c.press key) := by
  cases key with
  | digit d => exact h.adds_digit hkey
  | point => exact h.adds_point
  | operator op => exact h.adds_operator (eq_of_beq hkey) op
  | openParenthesis => exact h.adds_parenthesis (eq_of_beq hkey) true
  | closeParenthesis => exact h.adds_parenthesis (eq_of_beq hkey) false
  | _ => cases hkey

/-- The typed character is taken back, and the separators stay away. -/
theorem backspace_typing {ch : Char} (hch : isInfixChar ch = true) :
    (c.typing (c.buffer ++ [ch])).backspace = { c with display := c.buffer } := by
  have hlast := h.opensOperand_buffer.isLastCharacter_append ch
  have hrunning : (c.typing (c.buffer ++ [ch])).isStopped = false := h.isStopped
  have hentry : (c.typing (c.buffer ++ [ch])).fresh = false := rfl
  have hshortened : c.typing c.buffer = { c with display := c.buffer } := by
    rw [typing, ← h.entry]
  rw [backspace, whenRunning_of_running hrunning, buffer_typing_append hch, hlast, hentry,
    List.dropLast_concat]
  exact hshortened

/-- Typing goes on behind what is displayed. -/
theorem press (hkey : key.typesIn c.options.mode = true) : (c.press key).IsTyping := by
  have hreachable : Reachable (c.press key) := h.reachable.perform (.press key)
  have hadds := h.adds_press hkey
  generalize c.press key = next at hreachable hadds
  cases hadds with
  | dropped => exact h
  | @typed ch hch =>
    refine ⟨hreachable, h.running, rfl, fun hzero => ?_⟩
    -- a lone zero has no character in front
    have hlength : (c.buffer ++ [ch]).length = 1 := congrArg List.length hzero
    have hpos := List.length_pos_of_ne_nil h.opensOperand_buffer.ne_nil
    rw [List.length_append, List.length_singleton] at hlength
    omega

end IsTyping

/-- **Backspace undoes typing.**  In a running calculator in which something other than zero is
being typed, backspace takes back a key that types a character and changes the display by more than
its separators: what is left is the calculator as it was, without the separators.  Any other such
key has left the calculator as it was. -/
theorem backspace_press (h : Reachable c) (hrunning : c.alarm = none) (hentry : c.fresh = false)
    (hzero : c.display ≠ zeroText) (hkey : key.typesIn c.options.mode = true) :
    (eraseSeparators (c.press key).display ≠ eraseSeparators c.display →
        (c.press key).backspace = { c with display := eraseSeparators c.display }) ∧
      (eraseSeparators (c.press key).display = eraseSeparators c.display → c.press key = c) := by
  have htyping : c.IsTyping := ⟨h, hrunning, hentry, hzero⟩
  have hadds := htyping.adds_press hkey
  generalize c.press key = next at hadds
  cases hadds with
  | dropped => exact ⟨fun hchanged => absurd rfl hchanged, fun _ => rfl⟩
  | typed hch =>
    refine ⟨fun _ => htyping.backspace_typing hch, fun hsame => ?_⟩
    -- one character more is a change
    have hlength := congrArg List.length ((buffer_typing_append hch).symm.trans hsame)
    simp [buffer] at hlength

/-- From a grouped percentage a digit is typed, which drops the separator, and taken back. -/
theorem backspace_press_percentage :
    let c := (make { Options.standard with grouping := true }).pressAll
      [.digit '1', .digit '2', .digit '3', .digit '4', .digit '0', .digit '0', .percent]
    c.display = "1,234".toList ∧ (c.press (.digit '5')).display = "12345".toList ∧
      (c.press (.digit '5')).backspace = { c with display := "1234".toList } := by
  intro c
  have hreachable : Reachable c := (Reachable.make _).pressAll _
  have hdisplay : c.display = "1,234".toList := by decide +kernel
  have hbuffer : eraseSeparators c.display = "1234".toList := by rw [hdisplay]; decide
  have htyped : (c.press (.digit '5')).display = "12345".toList := by decide +kernel
  refine ⟨hdisplay, htyped, ?_⟩
  rw [← hbuffer]
  refine (backspace_press hreachable (by decide +kernel) (by decide +kernel) ?_ rfl).1 ?_
  · rw [hdisplay]
    decide
  · rw [htyped, hbuffer]
    decide

/-! ## Runs -/

/-- **A run of keys that type characters** puts characters behind what is displayed, and as many
backspaces take them back. -/
theorem IsTyping.backspaces_pressAll (h : c.IsTyping) {keys : List Key}
    (hkeys : ∀ key ∈ keys, key.typesIn c.options.mode = true) :
    ∃ typed : Text, typed.length ≤ keys.length ∧ (c.pressAll keys).buffer = c.buffer ++ typed ∧
      (c.pressAll keys).pressAll (List.replicate typed.length .backspace) =
        if typed = [] then c else { c with display := c.buffer } := by
  induction keys generalizing c with
  | nil => exact ⟨[], Nat.le_refl 0, (List.append_nil _).symm, rfl⟩
  | cons key rest ih =>
    have hkey := hkeys key List.mem_cons_self
    have hrest : ∀ other ∈ rest, other.typesIn c.options.mode = true := fun other hother =>
      hkeys other (List.mem_cons_of_mem key hother)
    have hadds := h.adds_press hkey
    have hnext := h.press hkey
    rw [pressAll_cons]
    generalize c.press key = next at hadds hnext
    cases hadds with
    | dropped =>
      obtain ⟨typed, hlength, hbuffer, hback⟩ := ih h hrest
      exact ⟨typed, Nat.le_succ_of_le hlength, hbuffer, hback⟩
    | @typed ch hch =>
      have hshown := buffer_typing_append (c := c) hch
      obtain ⟨typed, hlength, hbuffer, hback⟩ := ih hnext hrest
      refine ⟨ch :: typed, Nat.succ_le_succ hlength, ?_, ?_⟩
      · rw [hbuffer, hshown, List.append_assoc, List.singleton_append]
      · -- the last backspace takes back the first character, in front of which nothing was grouped
        have hplain : { c.typing (c.buffer ++ [ch]) with
            display := (c.typing (c.buffer ++ [ch])).buffer } = c.typing (c.buffer ++ [ch]) := by
          rw [hshown]
          rfl
        rw [hplain, ite_self] at hback
        rw [List.length_cons, List.replicate_succ', pressAll_append, hback,
          if_neg (List.cons_ne_nil ch typed)]
        exact h.backspace_typing hch

end Calculator

end Keypad
