import Keypad.Proofs.Calculator.DisplayCharacters
import Keypad.Proofs.Calculator.Effect
import Keypad.Proofs.Display.ReadsWithin

/-!
# What a chain displays

In sequential mode an operation does one of a few things to the display: it leaves it, clears it,
changes the sign in front, writes an accepted value, or makes of the number that is being typed
another one, of few digits or no larger than before.  Recalling the memory is the one exception,
since what it writes need not be an accepted value.  So what all of these keep holds of the display
of a chain, without another look at the keys.

## Main definitions

* `Calculator.Redisplays`: what an operation makes of the display of a chain
* `Calculator.HasEntry`: what is being typed is a number of some kind

## Main results

* `DisplayText.map_abs_readDisplay?_flipSign`: the sign key leaves the magnitude that is read
* `redisplays_perform`: every operation but recall is among these
* `Redisplays.hasEntry`: which kinds of numbers remain what is being typed
-/

namespace Keypad

/-! ## Edited texts -/

namespace DisplayNumber

variable (n : DisplayNumber)

theorem flipSign_text : Calculator.flipSign n.text = n.flip.text := by
  obtain ⟨d, rest, hcons, hd⟩ := n.exists_unsigned_eq_cons
  have hminus : d ≠ '-' := ne_of_kind hd rfl
  have hflip : n.flip.text = signText (!n.negative) ++ n.unsigned := rfl
  rw [hflip, text, hcons, flipSign_signText_append hminus]

/-- What is not the last character of an entry leaves a number behind. -/
theorem two_le_length_unsigned (h : Calculator.isLastCharacter n.text = false) :
    2 ≤ n.unsigned.length := by
  unfold text at h
  cases hsign : n.negative with
  | true =>
    rw [hsign] at h
    simp [Calculator.isLastCharacter, signText] at h
    omega
  | false =>
    rw [hsign] at h
    simp [Calculator.isLastCharacter, signText] at h
    omega

end DisplayNumber

/-- **Changing the sign of a display** leaves the magnitude that is read. -/
theorem DisplayText.map_abs_readDisplay?_flipSign {t : Text} (ht : DisplayText t) :
    (readDisplay? (Calculator.flipSign t)).map Binary64.abs =
      (readDisplay? t).map Binary64.abs := by
  -- behind its sign the text begins with a digit or parenthesis, and only the sign changes
  obtain ⟨negative, d, rest, hbuffer, hd⟩ := ht.opensOperand
  have hminus : d ≠ '-' := ne_minus_of_beginsOperand hd
  have hplus : d ≠ '+' := by
    rintro rfl
    cases hd
  have hmem : ∀ c ∈ d :: rest, c ∈ eraseSeparators t := fun c hc =>
    hbuffer ▸ List.mem_append_right _ hc
  have hblanks : ∀ c ∈ d :: rest, Text.isBlank c = false := fun c hc =>
    ht.isTidy.blanks c (mem_of_mem_eraseSeparators (hmem c hc))
  have hplain : separator ∉ d :: rest := fun hc =>
    separator_notMem_eraseSeparators t (hmem _ hc)
  rw [← ht.isTidy.flipSign.readDisplay?_eraseSeparators, ht.isTidy.eraseSeparators_flipSign,
    ← ht.isTidy.readDisplay?_eraseSeparators, hbuffer, flipSign_signText_append hminus,
    map_abs_readDisplay?_signText hminus hplus hblanks hplain,
    map_abs_readDisplay?_signText hminus hplus hblanks hplain]

namespace Calculator

/-- What is being typed, if anything is, is a number of some kind. -/
def HasEntry (P : DisplayNumber → Prop) (c : Calculator) : Prop :=
  c.fresh = false → ∃ n : DisplayNumber, c.buffer = n.text ∧ P n

/-- What an operation of a chain, other than recalling the memory, makes of the display. -/
inductive Redisplays (c : Calculator) : Calculator → Prop where
  | stopped (fault : Fault) : Redisplays c (c.stop fault)
  /-- The display stays; what was being typed may be finished. -/
  | kept {next : Calculator} (hdisplay : next.display = c.display)
    (hfresh : c.fresh = true → next.fresh = true) : Redisplays c next
  | cleared {next : Calculator} (hdisplay : next.display = zeroText) (hfresh : next.fresh = true) :
    Redisplays c next
  | signed {next : Calculator} (hdisplay : next.display = flipSign c.display)
    (hfresh : next.fresh = c.fresh) : Redisplays c next
  /-- A number within the limit of digits. -/
  | typed {next : Calculator} (n : DisplayNumber) (hdisplay : next.display = n.text)
    (hfew : Text.digitCount n.text ≤ digitCeiling) : Redisplays c next
  /-- A number that was being typed with a point, or without its last character. -/
  | edited {next : Calculator} (hfresh : c.fresh = false)
    (hless : ∀ n : DisplayNumber, c.buffer = n.text →
      ∃ m : DisplayNumber, next.display = m.text ∧ m.IsAtMost n) : Redisplays c next
  /-- A result, at the places in effect or at those of taxes. -/
  | written {next : Calculator} (style : Style) {v r : Binary64}
    (hstyle : style.places = c.places ∨ style.places = taxPlaces)
    (hr : v.accept style.places = .ok r) (hdisplay : next.display = style.write r) :
    Redisplays c next

variable {c next : Calculator}

theorem redisplays_self (c : Calculator) : c.Redisplays c := .kept rfl id

theorem redisplays_orStop {outcome : Except Fault Calculator}
    (hnext : ∀ next, outcome = .ok next → c.Redisplays next) : c.Redisplays (c.orStop outcome) := by
  cases outcome with
  | ok next => exact hnext next rfl
  | error fault => exact .stopped fault

/-! ## Typing -/

theorem fresh_of_editable? {t : Text} (h : c.editable? = some t) : c.fresh = false := by
  unfold editable? at h
  split at h
  · cases h
  · rename_i hedit
    rw [Bool.or_eq_true, not_or] at hedit
    exact Bool.eq_false_iff.mpr hedit.1

theorem redisplays_typing_digit (c : Calculator) {d : Char} (hd : d.isDigit = true) :
    c.Redisplays (c.typing [d]) := by
  refine .typed (.ofDigit d hd) (DisplayNumber.text_ofDigit hd).symm ?_
  rw [DisplayNumber.digitCount_text]
  exact (by decide : 1 ≤ digitCeiling)

theorem redisplays_typing_zeroPoint (c : Calculator) : c.Redisplays (c.typing "0.".toList) := by
  obtain ⟨n, hn, -⟩ := DisplayNumber.zero.exists_text_point (by decide)
  have htext : n.text = "0.".toList := hn
  exact .typed n htext.symm (by rw [htext]; decide)

theorem redisplays_typeDigit {P : DisplayNumber → Prop} (hentry : c.HasEntry P) {d : Char}
    (hd : d.isDigit = true) : c.Redisplays (c.typeDigit d) := by
  unfold typeDigit
  cases hedit : c.editable? with
  | none => exact redisplays_typing_digit c hd
  | some t =>
    obtain ⟨n, hn, -⟩ := hentry (fresh_of_editable? hedit)
    obtain rfl : t = n.text := (eq_buffer_of_editable? hedit).trans hn
    dsimp only
    -- either limit drops the digit, a lone zero is replaced, and any other number grows
    split
    · exact redisplays_self c
    rename_i hfew
    split
    · exact redisplays_self c
    split
    · exact redisplays_typing_digit c hd
    · obtain ⟨m, hm⟩ := n.exists_text_push hd
      have hcount : Text.digitCount m.text = Text.digitCount n.text + 1 := by
        rw [hm, Text.digitCount, List.countP_append, List.countP_singleton, if_pos hd]
        rfl
      exact .typed m hm.symm (by omega)

theorem redisplays_pointInNumber (c : Calculator) : c.Redisplays c.pointInNumber := by
  unfold pointInNumber
  cases hedit : c.editable? with
  | none => exact redisplays_typing_zeroPoint c
  | some t =>
    obtain rfl : t = c.buffer := eq_buffer_of_editable? hedit
    dsimp only
    split
    · exact redisplays_self c
    · rename_i hnone
      refine .edited (fresh_of_editable? hedit) fun n hn => ?_
      rw [hn] at hnone ⊢
      obtain ⟨m, hm, hless⟩ := n.exists_text_point fun hmem =>
        hnone (List.contains_iff_mem.mpr hmem)
      exact ⟨m, hm.symm, hless⟩

/-! ## Editing -/

theorem redisplays_backspace (c : Calculator) : c.Redisplays c.backspace := by
  refine whenRunning_cases (redisplays_self c) ?_
  split
  · exact redisplays_self c
  rename_i hfresh
  split
  · exact .cleared rfl rfl
  rename_i hlast
  refine .edited (Bool.eq_false_iff.mpr hfresh) fun n hn => ?_
  rw [hn] at hlast ⊢
  obtain ⟨m, hm, hless⟩ :=
    n.exists_text_dropLast (n.two_le_length_unsigned (Bool.eq_false_iff.mpr hlast))
  exact ⟨m, hm.symm, hless⟩

theorem redisplays_changeSign (c : Calculator) : c.Redisplays c.changeSign := by
  refine whenRunning_cases (redisplays_self c) ?_
  split
  · exact redisplays_self c
  · exact .signed rfl rfl

theorem redisplays_clearEntry (c : Calculator) : c.Redisplays c.clearEntry := by
  unfold clearEntry
  split
  · exact .cleared rfl rfl
  · exact .cleared rfl rfl

/-! ## Results -/

/-- A value that the calculator accepts is written at the places in effect. -/
theorem redisplays_of_reduce {op : Operator} {left right result : Binary64}
    (hreduce : c.reduce op left right = .ok result) (hdisplay : next.display = c.textOf result) :
    c.Redisplays next := by
  obtain ⟨_, -, haccept⟩ := bind_eq_ok_iff.mp hreduce
  exact .written c.style (Or.inl rfl) haccept hdisplay

theorem redisplays_advanceChain {op : Operator} (hnext : c.advanceChain op = .ok next) :
    c.Redisplays next := by
  unfold advanceChain at hnext
  split at hnext
  · cases hnext
    exact redisplays_self c
  -- a reduction is written, everything else leaves the display as it is
  split at hnext
  · split at hnext
    · cases hnext
      exact .kept rfl fun _ => rfl
    · obtain ⟨reduced, hreduced, hnext⟩ := bind_eq_ok_iff.mp hnext
      cases hnext
      exact redisplays_of_reduce hreduced rfl
  · cases hnext
    exact .kept rfl fun _ => rfl
  · cases hnext
    exact .kept rfl fun _ => rfl

theorem redisplays_concludeChain (hnext : c.concludeChain = .ok next) : c.Redisplays next := by
  unfold concludeChain at hnext
  split at hnext
  · split at hnext
    · cases hnext
      exact redisplays_self c
    · obtain ⟨result, hresult, hnext⟩ := bind_eq_ok_iff.mp hnext
      cases hnext
      exact redisplays_of_reduce hresult rfl
  · cases hnext
    exact .kept rfl fun _ => rfl

/-- Percent and tax write accepted values, each at its places. -/
theorem redisplays_convert {places : Nat} (hplaces : places = c.places ∨ places = taxPlaces)
    (f : Binary64 → Except Fault Binary64) : c.Redisplays (c.convert places f) := by
  refine whenRunning_cases (redisplays_self c) (redisplays_orStop fun next hnext => ?_)
  obtain ⟨current, -, hnext⟩ := bind_eq_ok_iff.mp hnext
  cases current with
  | none =>
    cases hnext
    exact redisplays_self c
  | some current =>
    obtain ⟨_, -, hnext⟩ := bind_eq_ok_iff.mp hnext
    obtain ⟨result, hresult, hnext⟩ := bind_eq_ok_iff.mp hnext
    cases hnext
    exact .written { c.style with places := places } hplaces hresult rfl

/-! ## Memory, mode and options -/

/-- The memory keys other than recall leave the display as it is. -/
theorem redisplays_of_remembers (hnext : c.Remembers next) : c.Redisplays next := by
  rw [hnext]
  exact .kept rfl id

theorem redisplays_accumulate (c : Calculator) (factor : Binary64) :
    c.Redisplays (c.accumulate factor) := by
  rcases accumulate_effect c factor with ⟨fault, hfails⟩ | hnext
  · rw [hfails]
    exact .stopped fault
  · exact redisplays_of_remembers hnext

/-- A switch from sequential mode leaves the display, also right after other options have
changed. -/
theorem redisplays_switchMode {configured : Calculator}
    (hdisplay : configured.display = c.display) (hfresh : configured.fresh = c.fresh)
    (hmode : configured.options.mode = .sequential) (mode : Mode) :
    c.Redisplays (configured.switchMode mode) := by
  have hkept : c.Redisplays configured := .kept hdisplay fun h => hfresh.trans h
  refine whenRunning_cases hkept ?_
  split
  · exact hkept
  · rename_i hother
    refine .kept (Eq.trans ?_ hdisplay) fun _ => rfl
    exact if_neg fun h => hother (hmode.trans h.1.symm)

section Sequential

variable (hmode : c.options.mode = .sequential)

include hmode

theorem redisplays_configure (change : OptionsChange) : c.Redisplays (c.configure change) := by
  refine whenRunning_cases (redisplays_self c) ?_
  dsimp only
  split
  · refine redisplays_switchMode ?_ ?_ ?_ _
    · rfl
    · rfl
    · exact hmode
  · exact .kept rfl id

theorem redisplays_operator (op : Operator) : c.Redisplays (c.operator op) := by
  unfold operator
  rw [hmode]
  exact whenRunning_cases (redisplays_self c) (redisplays_orStop fun _ => redisplays_advanceChain)

theorem redisplays_operatorSymbol (symbol : Char) : c.Redisplays (c.operatorSymbol symbol) := by
  refine whenRunning_cases (redisplays_self c) ?_
  split
  · exact redisplays_operator hmode _
  · exact .stopped _

theorem redisplays_equals : c.Redisplays c.equals := by
  unfold equals
  rw [hmode]
  exact whenRunning_cases (redisplays_self c) (redisplays_orStop fun _ => redisplays_concludeChain)

theorem redisplays_parenthesis (opening : Bool) : c.Redisplays (c.parenthesis opening) := by
  unfold parenthesis
  rw [hmode]
  exact whenRunning_cases (redisplays_self c) (redisplays_self c)

theorem redisplays_point : c.Redisplays c.point := by
  unfold point
  rw [hmode]
  refine whenRunning_cases (redisplays_self c) ?_
  split
  · exact redisplays_typing_zeroPoint c
  · exact redisplays_pointInNumber c

variable {P : DisplayNumber → Prop} (hentry : c.HasEntry P)

include hentry

theorem redisplays_digit (d : Char) : c.Redisplays (c.digit d) := by
  unfold digit
  rw [hmode]
  refine whenRunning_cases (redisplays_self c) ?_
  cases hd : d.isDigit with
  | false => exact .stopped _
  | true => exact redisplays_typeDigit hentry hd

theorem redisplays_press {key : Key} (hkey : key ≠ .recallMemory) : c.Redisplays (c.press key) := by
  cases key with
  | digit d => exact redisplays_digit hmode hentry d
  | point => exact redisplays_point hmode
  | operator op => exact redisplays_operator hmode op
  | equals => exact redisplays_equals hmode
  | percent => exact redisplays_convert (Or.inl rfl) _
  | addTax => exact redisplays_convert (Or.inr rfl) _
  | removeTax => exact redisplays_convert (Or.inr rfl) _
  | changeSign => exact redisplays_changeSign c
  | backspace => exact redisplays_backspace c
  | clearEntry => exact redisplays_clearEntry c
  | clearAll => exact .cleared rfl rfl
  | storeMemory => exact redisplays_of_remembers (remembers_storeMemory c)
  | recallMemory => exact absurd rfl hkey
  | addToMemory => exact redisplays_accumulate c _
  | subtractFromMemory => exact redisplays_accumulate c _
  | emptyMemory => exact redisplays_of_remembers (remembers_emptyMemory c)
  | openParenthesis => exact redisplays_parenthesis hmode true
  | closeParenthesis => exact redisplays_parenthesis hmode false
  | mode mode => exact redisplays_switchMode rfl rfl hmode mode

/-- **What an operation of a chain displays**, if it does not recall the memory. -/
theorem redisplays_perform {operation : Operation} (hrecall : operation ≠ .press .recallMemory) :
    c.Redisplays (c.perform operation) := by
  cases operation with
  | press key =>
    exact redisplays_press hmode hentry fun hkey => hrecall (congrArg Operation.press hkey)
  | operatorSymbol symbol => exact redisplays_operatorSymbol hmode symbol
  | configure change => exact redisplays_configure hmode change

end Sequential

/-! ## Entries -/

theorem hasEntry_of_fresh {P : DisplayNumber → Prop} (h : c.fresh = true) : c.HasEntry P := by
  intro hentry
  rw [h] at hentry
  cases hentry

/-- In a chain a recalled number awaits a fresh one. -/
theorem recallMemory_eq_or_fresh (hmode : c.options.mode = .sequential) :
    c.recallMemory = c ∨ c.recallMemory.fresh = true := by
  refine whenRunning_cases (P := fun next => next = c ∨ next.fresh = true) (Or.inl rfl) ?_
  split
  · exact Or.inl rfl
  · rw [hmode]
    exact Or.inr rfl

/-- **What is being typed in a chain**: a number of any kind that has all numbers of few digits,
with a number all that are no larger, and what is written of accepted values. -/
theorem Redisplays.hasEntry {P : DisplayNumber → Prop} (h : c.Redisplays next)
    (hentry : c.HasEntry P) (htidy : IsTidy c.display)
    (hfew : ∀ n : DisplayNumber, Text.digitCount n.text ≤ digitCeiling → P n)
    (hless : ∀ m n : DisplayNumber, m.IsAtMost n → P n → P m)
    (hwritten : ∀ (style : Style) (v r : Binary64),
      style.places = c.places ∨ style.places = taxPlaces → v.accept style.places = .ok r →
      ∃ n : DisplayNumber, eraseSeparators (style.write r) = n.text ∧ P n) :
    next.HasEntry P := by
  have hplain (n : DisplayNumber) : eraseSeparators n.text = n.text :=
    eraseSeparators_of_notMem n.separator_notMem_text
  have htext {display : Text} (hdisplay : next.display = display) :
      next.buffer = eraseSeparators display := congrArg eraseSeparators hdisplay
  cases h with
  | stopped fault => exact hasEntry_of_fresh rfl
  | kept hdisplay hfresh =>
    intro hnext
    rw [htext hdisplay]
    refine hentry (Bool.eq_false_iff.mpr fun hc => ?_)
    rw [hfresh hc] at hnext
    cases hnext
  | cleared hdisplay hfresh => exact hasEntry_of_fresh hfresh
  | signed hdisplay hfresh =>
    -- the other sign makes a number no larger
    intro hnext
    obtain ⟨n, hn, hP⟩ := hentry (hfresh ▸ hnext)
    have herase : eraseSeparators c.display = n.text := hn
    refine ⟨n.flip, ?_, hless _ n n.isAtMost_flip hP⟩
    rw [htext hdisplay, htidy.eraseSeparators_flipSign, herase, n.flipSign_text]
  | typed n hdisplay hcount => exact fun _ => ⟨n, (htext hdisplay).trans (hplain n), hfew n hcount⟩
  | edited hfresh hedit =>
    intro _
    obtain ⟨n, hn, hP⟩ := hentry hfresh
    obtain ⟨m, hdisplay, hatMost⟩ := hedit n hn
    exact ⟨m, (htext hdisplay).trans (hplain m), hless m n hatMost hP⟩
  | written style hstyle hr hdisplay =>
    intro _
    rw [htext hdisplay]
    exact hwritten _ _ _ hstyle hr

end Calculator

end Keypad
