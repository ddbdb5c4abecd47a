import Keypad.Operation
import Keypad.Proofs.Display.Separators
import Keypad.Proofs.Outcome

/-!
# Views of a calculator

A view hides something of a calculator: how its numbers are presented, or its tape.  Operations
respect a view that hides no more than that: two calculators that look alike still look alike after
any operation, so what is hidden never comes to light.

## Main definitions

* `View`, with `View.see` and `View.operation`: what is seen of a calculator and of an operation
* `View.IsFaithful`: the view hides nothing that an operation depends on
* `View.Reads`: a text that keys and reader take as they would without the view

## Main results

* `see_press`, `see_configure`: what is seen after an operation is what the operation makes of what
  was seen before; equals apart, which adds to a tape that may be hidden
* `see_perform`: calculators that look alike look alike after an operation
* `see_performAll`: and after any run
-/

namespace Keypad

/-- What is shown of texts, of options and their changes, and of the tape; all else is shown as
it is. -/
structure View where
  text : Text → Text
  options : Options → Options
  change : OptionsChange → OptionsChange
  tape : Tape → Tape

namespace View

open Calculator

/-- What is seen of a calculator. -/
def see (v : View) (c : Calculator) : Calculator :=
  { c with display := v.text c.display, options := v.options c.options, tape := v.tape c.tape }

/-- What is seen of an operation. -/
def operation (v : View) : Operation → Operation
  | .configure change => .configure (v.change change)
  | other => other

/-- A view that hides nothing an operation depends on: at most separators and whether numbers are
grouped, and what stands on the tape. -/
structure IsFaithful (v : View) : Prop where
  taxRate : ∀ options, (v.options options).taxRate = options.taxRate
  precision : ∀ options, (v.options options).precision = options.precision
  mode : ∀ options, (v.options options).mode = options.mode
  mode_change : ∀ change, (v.change change).mode = change.mode
  switch : ∀ options mode,
    v.options { options with mode := mode } = { v.options options with mode := mode }
  change : ∀ (options : Options) change, v.options (options.change { change with mode := none }) =
    (v.options options).change { v.change change with mode := none }
  /-- What is seen of a value is the value as the options seen write it. -/
  write : ∀ (options : Options) places x,
    v.text (Style.write ⟨places, options.grouping, options.scientific⟩ x) =
      Style.write ⟨places, (v.options options).grouping, (v.options options).scientific⟩ x
  text_of_notMem : ∀ t, separator ∉ t → v.text t = t
  eraseSeparators_text : ∀ t, eraseSeparators (v.text t) = eraseSeparators t
  /-- New entries that look alike are added to tapes that look alike. -/
  push : ∀ {tape other : Tape} {entry entry' : Entry}, v.tape tape = v.tape other →
    eraseSeparators entry.expression = eraseSeparators entry'.expression →
    v.text entry.result = v.text entry'.result →
    v.tape (tape.push entry) = v.tape (other.push entry')

/-- A display that is read, is a lone zero, and has its sign changed as it is seen. -/
structure Reads (v : View) (t : Text) : Prop where
  value : readDisplay? (v.text t) = readDisplay? t
  zero : v.text t = zeroText ↔ t = zeroText
  sign : v.text (flipSign t) = flipSign (v.text t)

variable {v : View} {c d : Calculator}

@[simp] theorem see_accumulator (v : View) (c : Calculator) :
    (v.see c).accumulator = c.accumulator := rfl

@[simp] theorem see_pending (v : View) (c : Calculator) : (v.see c).pending = c.pending := rfl

@[simp] theorem see_recent (v : View) (c : Calculator) : (v.see c).recent = c.recent := rfl

@[simp] theorem see_fresh (v : View) (c : Calculator) : (v.see c).fresh = c.fresh := rfl

@[simp] theorem see_memory (v : View) (c : Calculator) : (v.see c).memory = c.memory := rfl

theorem see_whenRunning (c next : Calculator) :
    v.see (c.whenRunning next) = (v.see c).whenRunning (v.see next) :=
  apply_ite v.see _ _ _

theorem value?_see (hc : v.Reads c.display) : (v.see c).value? = c.value? := hc.value

theorem separator_notMem_of_editable? {t : Text} (h : c.editable? = some t) :
    separator ∉ t := by
  rw [eq_buffer_of_editable? h]
  exact separator_notMem_eraseSeparators _

theorem see_changeSign (hc : v.Reads c.display) : v.see c.changeSign = (v.see c).changeSign := by
  have hzero : ((v.see c).display = zeroText) = (c.display = zeroText) := propext hc.zero
  have hsign : v.see { c with display := flipSign c.display } =
      { v.see c with display := flipSign (v.see c).display } := by
    unfold see
    rw [hc.sign]
  unfold changeSign
  rw [see_whenRunning, apply_ite v.see, hsign]
  simp only [hzero]

theorem see_storeMemory (hc : v.Reads c.display) :
    v.see c.storeMemory = (v.see c).storeMemory := by
  unfold storeMemory
  rw [see_whenRunning, value?_see hc]
  congr 1
  cases c.value? <;> rfl

theorem see_emptyMemory (c : Calculator) : v.see c.emptyMemory = (v.see c).emptyMemory :=
  see_whenRunning c _

section Faithful

variable (hv : v.IsFaithful)

include hv

/-! ## What is read of a calculator -/

theorem buffer_see (c : Calculator) : (v.see c).buffer = c.buffer :=
  hv.eraseSeparators_text c.display

theorem mode_see (c : Calculator) : (v.see c).options.mode = c.options.mode := hv.mode c.options

theorem places_see (c : Calculator) : (v.see c).places = c.places :=
  congrArg UInt8.toNat (hv.precision c.options)

theorem text_write (c : Calculator) (places : Nat) (x : Binary64) :
    v.text ({ c.style with places := places }.write x) =
      { (v.see c).style with places := places }.write x :=
  hv.write c.options places x

theorem text_textOf (c : Calculator) (x : Binary64) : v.text (c.textOf x) = (v.see c).textOf x := by
  refine (text_write hv c c.places x).trans ?_
  rw [← places_see hv c]
  rfl

theorem editable?_see (c : Calculator) : (v.see c).editable? = c.editable? := by
  -- the exponent is looked for on the display itself, all else in the buffer
  have hexponent : (v.see c).display.contains 'e' = c.display.contains 'e' := by
    rw [← contains_eraseSeparators (by decide) c.display, ← hv.eraseSeparators_text]
    exact (contains_eraseSeparators (by decide) _).symm
  unfold editable?
  rw [hexponent, buffer_see hv]
  rfl

theorem operand_see (hc : v.Reads c.display) : (v.see c).operand = c.operand := by
  unfold operand
  rw [mode_see hv, value?_see hc, buffer_see hv]

/-! ## Steps that operations share -/

theorem see_typing {t : Text} (ht : separator ∉ t) :
    v.see (c.typing t) = (v.see c).typing t := by
  unfold see typing
  rw [hv.text_of_notMem t ht]

theorem see_stop (c : Calculator) (fault : Fault) :
    v.see (c.stop fault) = (v.see c).stop fault := by
  unfold see stop
  rw [hv.text_of_notMem _ (separator_notMem_message fault)]

theorem see_orStop (c : Calculator) (outcome : Except Fault Calculator) :
    v.see (c.orStop outcome) = (v.see c).orStop (outcome.map v.see) := by
  cases outcome with
  | ok next => rfl
  | error fault => exact see_stop hv c fault

theorem see_awaiting (c : Calculator) : v.see c.awaiting = (v.see c).awaiting := by
  have hzero : v.text zeroText = zeroText := hv.text_of_notMem _ (by decide)
  unfold see awaiting
  rw [hzero]

theorem see_extend {t : Text} (ht : separator ∉ t) :
    v.see (c.extend t) = (v.see c).extend t := by
  unfold extend
  rw [buffer_see hv]
  exact see_typing hv (separator_notMem_append (separator_notMem_eraseSeparators _) ht)

theorem see_enter (hc : v.Reads c.display) {t : Text} (ht : separator ∉ t) :
    v.see (c.enter t) = (v.see c).enter t := by
  have hzero : (c.display == zeroText) = ((v.see c).display == zeroText) := by
    rw [Bool.eq_iff_iff, beq_iff_eq, beq_iff_eq]
    exact hc.zero.symm
  unfold enter
  rw [apply_ite v.see, see_typing hv ht, see_extend hv ht, hzero]
  rfl

/-! ## Typing and editing -/

theorem see_typeDigit {digit : Char} (hdigit : digit ≠ separator) :
    v.see (c.typeDigit digit) = (v.see c).typeDigit digit := by
  have hplain : separator ∉ [digit] := by simpa using hdigit.symm
  unfold typeDigit
  rw [editable?_see hv]
  cases hedit : c.editable? with
  | none => exact see_typing hv hplain
  | some t =>
    have ht := separator_notMem_of_editable? hedit
    dsimp only
    rw [apply_ite v.see, apply_ite v.see, apply_ite v.see, see_typing hv hplain,
      see_typing hv (separator_notMem_append ht hplain)]

theorem see_digit (hc : v.Reads c.display) (digit : Char) :
    v.see (c.digit digit) = (v.see c).digit digit := by
  unfold Calculator.digit
  rw [see_whenRunning, mode_see hv]
  congr 1
  cases hdigit : digit.isDigit with
  | false => exact see_stop hv c _
  | true =>
    have hne : digit ≠ separator := by
      rintro rfl
      exact absurd hdigit (by decide)
    cases c.options.mode with
    | sequential => exact see_typeDigit hv hne
    | expression => exact see_enter hv hc (by simpa using hne.symm)

theorem see_pointInNumber : v.see c.pointInNumber = (v.see c).pointInNumber := by
  unfold pointInNumber
  rw [editable?_see hv]
  cases hedit : c.editable? with
  | none => exact see_typing hv (by decide)
  | some t =>
    have ht := separator_notMem_of_editable? hedit
    dsimp only
    rw [apply_ite v.see, see_typing hv (separator_notMem_append ht (by decide))]

theorem see_pointInExpression : v.see c.pointInExpression = (v.see c).pointInExpression := by
  unfold pointInExpression
  rw [apply_ite v.see, see_extend hv (by decide), buffer_see hv]

theorem see_point (c : Calculator) : v.see c.point = (v.see c).point := by
  unfold point
  rw [see_whenRunning, mode_see hv, apply_ite v.see, see_typing hv (by decide)]
  congr 1
  show (if c.fresh = true then _ else _) = if c.fresh = true then _ else _
  congr 1
  cases c.options.mode with
  | sequential => exact see_pointInNumber hv
  | expression => exact see_pointInExpression hv

theorem see_backspace (c : Calculator) : v.see c.backspace = (v.see c).backspace := by
  have hlast : v.see { c with display := c.buffer.dropLast } =
      { v.see c with display := c.buffer.dropLast } := by
    have hplain : separator ∉ c.buffer.dropLast := fun hmem =>
      separator_notMem_eraseSeparators _ (List.mem_of_mem_dropLast hmem)
    unfold see
    rw [hv.text_of_notMem _ hplain]
  unfold backspace
  rw [see_whenRunning, apply_ite v.see, apply_ite v.see, see_awaiting hv, hlast, buffer_see hv]
  rfl

theorem see_parenthesis (hc : v.Reads c.display) (opening : Bool) :
    v.see (c.parenthesis opening) = (v.see c).parenthesis opening := by
  unfold parenthesis
  rw [see_whenRunning, mode_see hv]
  congr 1
  cases c.options.mode with
  | sequential => rfl
  | expression =>
    cases opening with
    | true => exact see_enter hv hc (by decide)
    | false => exact see_extend hv (by decide)

theorem see_clearAll (c : Calculator) : v.see c.clearAll = (v.see c).clearAll := by
  have hzero : v.text zeroText = zeroText := hv.text_of_notMem _ (by decide)
  unfold see clearAll make
  rw [hzero]

theorem see_clearEntry (c : Calculator) : v.see c.clearEntry = (v.see c).clearEntry := by
  unfold clearEntry
  rw [apply_ite v.see, see_clearAll hv, see_awaiting hv]
  rfl

/-! ## The chain -/

theorem reduce_see (c : Calculator) (op : Operator) (left right : Binary64) :
    (v.see c).reduce op left right = c.reduce op left right := by
  unfold reduce
  rw [places_see hv]

theorem map_see_advanceChain (hc : v.Reads c.display) (op : Operator) :
    (c.advanceChain op).map v.see = (v.see c).advanceChain op := by
  unfold advanceChain
  rw [value?_see hc, see_pending, see_accumulator, see_fresh]
  cases c.value? with
  | none => rfl
  | some current =>
    dsimp only
    -- only where an operand was typed is anything written
    split
    · rename_i pending accumulator _ _
      rw [reduce_see hv]
      split
      · rfl
      · cases c.reduce pending accumulator current with
        | error fault => rfl
        | ok reduced =>
          refine congrArg Except.ok ?_
          unfold see awaitOperand
          rw [text_textOf hv]
          rfl
    · rfl
    · rfl

theorem see_operator (hc : v.Reads c.display) (op : Operator) :
    v.see (c.operator op) = (v.see c).operator op := by
  unfold operator
  rw [see_whenRunning, mode_see hv]
  congr 1
  cases c.options.mode with
  | sequential =>
    exact (see_orStop hv c _).trans (congrArg _ (map_see_advanceChain hv hc op))
  | expression =>
    refine see_extend hv ?_
    cases op <;> decide

theorem see_operatorSymbol (hc : v.Reads c.display) (symbol : Char) :
    v.see (c.operatorSymbol symbol) = (v.see c).operatorSymbol symbol := by
  unfold operatorSymbol
  rw [see_whenRunning]
  congr 1
  cases Operator.ofSymbol? symbol with
  | none => exact see_stop hv c _
  | some op => exact see_operator hv hc op

/-! ## Percent, tax and memory -/

theorem see_convert (hc : v.Reads c.display) (places : Nat)
    (f : Binary64 → Except Fault Binary64) :
    v.see (c.convert places f) = (v.see c).convert places f := by
  unfold convert
  rw [see_whenRunning, see_orStop hv, operand_see hv hc]
  congr 2
  cases c.operand with
  | error fault => rfl
  | ok current =>
    cases current with
    | none => rfl
    | some current =>
      show ((f current).bind _).map v.see = (f current).bind _
      cases f current with
      | error fault => rfl
      | ok x =>
        show ((x.accept places).bind _).map v.see = (x.accept places).bind _
        cases x.accept places with
        | error fault => rfl
        | ok result =>
          refine congrArg Except.ok ?_
          unfold see typing
          rw [text_write hv]
          rfl

theorem see_recallMemory (hc : v.Reads c.display) :
    v.see c.recallMemory = (v.see c).recallMemory := by
  unfold recallMemory
  rw [see_whenRunning, mode_see hv, see_memory]
  congr 1
  cases c.memory with
  | none => rfl
  | some x =>
    dsimp only
    cases c.options.mode with
    | sequential =>
      unfold see
      rw [text_textOf hv]
      rfl
    | expression =>
      -- into an expression a number is written without grouping, whatever the options say
      dsimp only
      rw [places_see hv]
      exact see_enter hv hc (separator_notMem_write rfl x)

theorem see_accumulate (hc : v.Reads c.display) (factor : Binary64) :
    v.see (c.accumulate factor) = (v.see c).accumulate factor := by
  unfold accumulate
  rw [see_whenRunning, value?_see hc, places_see hv, see_memory]
  congr 1
  cases c.value? with
  | none => rfl
  | some current =>
    dsimp only
    split
    · rfl
    · exact see_stop hv c _

/-! ## Mode and options -/

theorem see_switchMode (hc : v.Reads c.display) (mode : Mode) :
    v.see (c.switchMode mode) = (v.see c).switchMode mode := by
  have hzero : v.text zeroText = zeroText := hv.text_of_notMem _ (by decide)
  unfold switchMode
  rw [see_whenRunning, apply_ite v.see, mode_see hv, value?_see hc]
  congr 2
  unfold see dropComputation
  dsimp only
  rw [apply_ite v.text, hzero, hv.switch]

theorem see_configure (hc : v.Reads c.display) (change : OptionsChange) :
    v.see (c.configure change) = (v.see c).configure (v.change change) := by
  have hconfigured :
      v.see { c with options := c.options.change { change with mode := none } } =
        { v.see c with
          options := (v.see c).options.change { v.change change with mode := none } } := by
    unfold see
    rw [hv.change]
  unfold configure
  rw [see_whenRunning, hv.mode_change]
  congr 1
  dsimp only
  rw [← hconfigured]
  cases change.mode with
  | none => rfl
  | some mode =>
    exact see_switchMode hv
      (c := { c with options := c.options.change { change with mode := none } }) hc mode

/-! ## Equals

Equals adds to the tape, which the view may hide, so it is followed on two calculators that look
alike. -/

theorem see_complete (h : v.see c = v.see d) {expression other : Text}
    (hexpression : eraseSeparators expression = eraseSeparators other) (result : Binary64) :
    v.see (c.complete expression result) = v.see (d.complete other result) := by
  have htext : v.text (c.textOf result) = v.text (d.textOf result) := by
    rw [text_textOf hv, text_textOf hv, h]
  have htape : v.tape (c.tape.push ⟨expression, c.textOf result⟩) =
      v.tape (d.tape.push ⟨other, d.textOf result⟩) :=
    hv.push (congrArg Calculator.tape h) hexpression htext
  calc v.see (c.complete expression result)
      = { v.see c with
          display := v.text (c.textOf result)
          fresh := true
          tape := v.tape (c.tape.push ⟨expression, c.textOf result⟩) } := rfl
    _ = { v.see d with
          display := v.text (d.textOf result)
          fresh := true
          tape := v.tape (d.tape.push ⟨other, d.textOf result⟩) } := by rw [h, htext, htape]
    _ = v.see (d.complete other result) := rfl

theorem eraseSeparators_textOf (h : v.see c = v.see d) (x : Binary64) :
    eraseSeparators (c.textOf x) = eraseSeparators (d.textOf x) := by
  rw [← hv.eraseSeparators_text, ← hv.eraseSeparators_text (d.textOf x), text_textOf hv,
    text_textOf hv, h]

theorem map_see_concludeChain (h : v.see c = v.see d) (hc : v.Reads c.display)
    (hd : v.Reads d.display) : c.concludeChain.map v.see = d.concludeChain.map v.see := by
  have hpending : c.pending = d.pending := by
    rw [← see_pending v, h, see_pending]
  have haccumulator : c.accumulator = d.accumulator := by
    rw [← see_accumulator v, h, see_accumulator]
  have hrecent : c.recent = d.recent := by
    rw [← see_recent v, h, see_recent]
  have hfresh : c.fresh = d.fresh := by
    rw [← see_fresh v, h, see_fresh]
  have hvalue : c.value? = d.value? := by
    rw [← value?_see hc, h, value?_see hd]
  -- both calculators reduce the same operands, and differ in what the operands are written as
  unfold concludeChain rightOperand?
  rw [hpending, haccumulator, hrecent, hfresh, hvalue]
  split
  · rename_i op accumulator _ _
    split
    · exact congrArg Except.ok h
    · rename_i right _
      have hreduce : c.reduce op accumulator right = d.reduce op accumulator right := by
        rw [← reduce_see hv, h, reduce_see hv]
      rw [hreduce]
      cases d.reduce op accumulator right with
      | error fault => rfl
      | ok result =>
        have hexpression : eraseSeparators (c.chainText accumulator op right) =
            eraseSeparators (d.chainText accumulator op right) := by
          unfold chainText
          rw [eraseSeparators_append, eraseSeparators_append, eraseSeparators_append,
            eraseSeparators_append, eraseSeparators_textOf hv h, eraseSeparators_textOf hv h]
        exact congrArg
          (fun next => Except.ok { next with accumulator := some result, recent := some right })
          (see_complete hv h hexpression result)
  · exact congrArg
      (fun next : Calculator => Except.ok
        { next with
          accumulator := d.value?, pending := d.pending, recent := d.recent, fresh := true }) h

theorem map_see_concludeExpression (h : v.see c = v.see d) :
    c.concludeExpression.map v.see = d.concludeExpression.map v.see := by
  have hfresh : c.fresh = d.fresh := by
    rw [← see_fresh v, h, see_fresh]
  have hbuffer : c.buffer = d.buffer := by
    rw [← buffer_see hv, h, buffer_see hv]
  have hplaces : c.places = d.places := by
    rw [← places_see hv, h, places_see hv]
  unfold concludeExpression
  rw [hfresh, hbuffer, hplaces]
  split
  · exact congrArg Except.ok h
  · show ((evaluate (withoutBlanks d.buffer)).bind _).map v.see =
      ((evaluate (withoutBlanks d.buffer)).bind _).map v.see
    cases evaluate (withoutBlanks d.buffer) with
    | error fault => rfl
    | ok x =>
      show ((x.accept d.places).bind _).map v.see = ((x.accept d.places).bind _).map v.see
      cases x.accept d.places with
      | error fault => rfl
      | ok result => exact congrArg Except.ok (see_complete hv h rfl result)

theorem see_equals (h : v.see c = v.see d) (hc : v.Reads c.display) (hd : v.Reads d.display) :
    v.see c.equals = v.see d.equals := by
  have hmode : c.options.mode = d.options.mode := by
    rw [← mode_see hv, h, mode_see hv]
  unfold equals
  rw [see_whenRunning, see_whenRunning, hmode, h]
  congr 1
  cases d.options.mode with
  | sequential =>
    dsimp only
    rw [see_orStop hv, see_orStop hv, map_see_concludeChain hv h hc hd, h]
  | expression =>
    dsimp only
    rw [see_orStop hv, see_orStop hv, map_see_concludeExpression hv h, h]

/-! ## Runs -/

/-- What is seen after a key other than equals is what the key makes of what was seen before. -/
theorem see_press (hc : v.Reads c.display) {key : Key} (hkey : key ≠ .equals) :
    v.see (c.press key) = (v.see c).press key := by
  have htax : (v.see c).taxFactor = c.taxFactor :=
    congrArg Binary64.one.add (hv.taxRate c.options)
  cases key with
  | digit digit => exact see_digit hv hc digit
  | point => exact see_point hv c
  | operator op => exact see_operator hv hc op
  | equals => exact absurd rfl hkey
  | percent =>
    refine (see_convert hv hc _ _).trans ?_
    rw [← places_see hv]
    rfl
  | addTax =>
    refine (see_convert hv hc _ _).trans ?_
    rw [← htax]
    rfl
  | removeTax =>
    refine (see_convert hv hc _ _).trans ?_
    rw [← htax]
    rfl
  | changeSign => exact see_changeSign hc
  | backspace => exact see_backspace hv c
  | clearEntry => exact see_clearEntry hv c
  | clearAll => exact see_clearAll hv c
  | storeMemory => exact see_storeMemory hc
  | recallMemory => exact see_recallMemory hv hc
  | addToMemory => exact see_accumulate hv hc _
  | subtractFromMemory => exact see_accumulate hv hc _
  | emptyMemory => exact see_emptyMemory c
  | openParenthesis => exact see_parenthesis hv hc true
  | closeParenthesis => exact see_parenthesis hv hc false
  | mode mode => exact see_switchMode hv hc mode

/-- **Operations respect a faithful view**: two calculators that look alike look alike after
operations that look alike. -/
theorem see_perform (h : v.see c = v.see d) (hc : v.Reads c.display) (hd : v.Reads d.display)
    {operation other : Operation} (hoperation : v.operation operation = v.operation other) :
    v.see (c.perform operation) = v.see (d.perform other) := by
  cases operation with
  | press key =>
    cases other with
    | press key' =>
      obtain rfl : key = key' := by simpa [View.operation] using hoperation
      by_cases hkey : key = .equals
      · subst hkey
        exact see_equals hv h hc hd
      · exact (see_press hv hc hkey).trans (h ▸ (see_press hv hd hkey).symm)
    | operatorSymbol symbol => cases hoperation
    | configure change => cases hoperation
  | operatorSymbol symbol =>
    cases other with
    | press key => cases hoperation
    | operatorSymbol symbol' =>
      obtain rfl : symbol = symbol' := by simpa [View.operation] using hoperation
      exact (see_operatorSymbol hv hc symbol).trans (h ▸ (see_operatorSymbol hv hd symbol).symm)
    | configure change => cases hoperation
  | configure change =>
    cases other with
    | press key => cases hoperation
    | operatorSymbol symbol => cases hoperation
    | configure change' =>
      have hchange : v.change change = v.change change' := by
        simpa [View.operation] using hoperation
      calc v.see (c.configure change)
          = (v.see c).configure (v.change change) := see_configure hv hc change
        _ = (v.see d).configure (v.change change') := by rw [h, hchange]
        _ = v.see (d.configure change') := (see_configure hv hd change').symm

/-- **Runs respect a faithful view**, as long as every display on the way is read through it. -/
theorem see_performAll {P : Calculator → Prop} (hreads : ∀ c, P c → v.Reads c.display)
    (hstep : ∀ c operation, P c → P (c.perform operation)) (h : v.see c = v.see d)
    (hc : P c) (hd : P d) {operations others : List Operation}
    (hoperations : operations.map v.operation = others.map v.operation) :
    v.see (c.performAll operations) = v.see (d.performAll others) := by
  -- `P` carries along what makes the next displays readable, looking alike does not
  induction operations generalizing c d others with
  | nil =>
    obtain rfl : others = [] := by simpa using hoperations.symm
    exact h
  | cons operation rest ih =>
    cases others with
    | nil => cases hoperations
    | cons other rest' =>
      obtain ⟨hfirst, hrest⟩ := List.cons.inj hoperations
      exact ih (see_perform hv h (hreads c hc) (hreads d hd) hfirst) (hstep c operation hc)
        (hstep d other hd) hrest

end Faithful

end View

end Keypad
