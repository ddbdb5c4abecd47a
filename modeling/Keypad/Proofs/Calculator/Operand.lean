import Keypad.Proofs.Expression.PlainNumber
import Keypad.Proofs.Expression.Sentence
import Keypad.Proofs.Session.TypedExpression

/-!
# The operand in expression mode

Percent and tax act on a number.  In expression mode this is the display where it reads as one, and
else what the display evaluates to.  In the characters of expressions the two agree, so the operand
is what the display evaluates to either way; and percent is equals on the display in parentheses
over one hundred.

## Main definitions

* `Calculator.overHundred`: the display in parentheses, over one hundred

## Main results

* `evaluate_of_readDisplay?`: a display that reads as a number evaluates to it
* `operand_of_readDisplay?`: the operand is the same, by reading and by evaluating
* `percent_eq_overHundred`: percent and equals over one hundred agree
-/

namespace Keypad

variable {t : Text}

/-! ## Reading the display -/

/-- A display in the characters of expressions is read as it stands. -/
theorem readDisplay?_of_isInfixChar (ht : ∀ ch ∈ eraseSeparators t, isInfixChar ch = true) :
    readDisplay? t = (Numeral.read? (eraseSeparators t)).filter Binary64.isFinite := by
  have hblanks : ∀ ch ∈ t, Text.isBlank ch = false := by
    intro ch hch
    by_cases hseparator : ch = separator
    · subst hseparator
      decide
    · exact isBlank_of_isInfixChar (ht ch (by simpa [eraseSeparators, hseparator] using hch))
  rw [readDisplay?, Text.trim_of_all hblanks]

/-- **Reading agrees with evaluating**: what a display is read as, it evaluates to. -/
theorem evaluate_of_readDisplay? (ht : ∀ ch ∈ eraseSeparators t, isInfixChar ch = true)
    (hplus : (eraseSeparators t).head? ≠ some '+') {x : Binary64} (hx : readDisplay? t = some x) :
    evaluate (eraseSeparators t) = .ok x := by
  rw [readDisplay?_of_isInfixChar ht] at hx
  exact evaluate_of_read? ht hplus (Option.filter_eq_some_iff.mp hx).1

namespace Calculator

variable {c : Calculator}

/-- **The operand is what the display evaluates to**, also where it is read and not evaluated. -/
theorem operand_eq_evaluate (hmode : c.options.mode = .expression)
    (hchars : ∀ ch ∈ c.buffer, isInfixChar ch = true) (hplus : c.buffer.head? ≠ some '+') :
    c.operand = (evaluate c.buffer).map some := by
  unfold operand
  rw [hmode]
  -- without a number on the display it is evaluated anyway
  cases hvalue : c.value? with
  | none => rfl
  | some x => rw [show evaluate c.buffer = .ok x from evaluate_of_readDisplay? hchars hplus hvalue,
      Except.map]

/-- **The short cut of a plain number.**  A text in the characters of expressions and separators
that is read as a number, and has no plus sign in front, evaluates without its separators to that
number.  So a calculator in expression mode that shows it has this operand, and evaluating the
display gives no other. -/
theorem operand_of_readDisplay? (t : Text)
    (hchars : ∀ ch ∈ t, isInfixChar ch = true ∨ ch = separator)
    (hplus : (eraseSeparators t).head? ≠ some '+') (x : Binary64) (hx : readDisplay? t = some x) :
    evaluate (eraseSeparators t) = .ok x ∧
      ∀ c : Calculator, c.options.mode = .expression → c.display = t →
        c.operand = .ok (some x) ∧ c.operand = (evaluate c.buffer).map some := by
  have hkept : ∀ ch ∈ eraseSeparators t, isInfixChar ch = true := by
    intro ch hch
    obtain ⟨hmem, hne⟩ := List.mem_filter.mp hch
    exact (hchars ch hmem).resolve_right (bne_iff_ne.mp hne)
  have hvalue := evaluate_of_readDisplay? hkept hplus hx
  refine ⟨hvalue, ?_⟩
  rintro c hmode rfl
  have hoperand : c.operand = (evaluate c.buffer).map some := operand_eq_evaluate hmode hkept hplus
  refine ⟨?_, hoperand⟩
  rw [hoperand, buffer, hvalue, Except.map]

theorem operand_of_readDisplay?_grouped :
    evaluate "-1234.5".toList = .ok (Decimal.toBinary64 ⟨true, 12345, -1⟩) ∧
      ∀ c : Calculator, c.options.mode = .expression → c.display = "-1,234.5".toList →
        c.operand = .ok (some (Decimal.toBinary64 ⟨true, 12345, -1⟩)) ∧
          c.operand = (evaluate c.buffer).map some := by
  have hall : ("-1,234.5".toList.all fun ch => isInfixChar ch || ch == separator) = true := by
    decide
  exact operand_of_readDisplay? "-1,234.5".toList (by simpa using hall) (by decide)
    (Decimal.toBinary64 ⟨true, 12345, -1⟩) (by decide +kernel)

/-! ## Percent -/

/-- The display in parentheses, over one hundred, as an entry. -/
def overHundred (c : Calculator) : Calculator := c.typing ('(' :: (c.buffer ++ ")/100".toList))

/-- A hundredth of a phrase, as a phrase. -/
def hundredth (phrase : Infix) : Infix :=
  .binary .over (.group phrase) (.literal false "100".toList)

theorem fits_hundredth {phrase : Infix} (h : phrase.Fits Infix.loosest) :
    (hundredth phrase).Fits Infix.loosest :=
  ⟨by decide, h, show isLiteral "100".toList = true by decide⟩

/-- Divided by what is no zero, a phrase fails as it does alone. -/
theorem value_over {left right : Infix} {y : Binary64} (hright : right.value = .ok y)
    (hy : y.isZero = false) :
    (Infix.binary .over left right).value = left.value.bind fun x => .ok (x.div y) := by
  have happly : ∀ x : Binary64, Operator.over.apply x y = .ok (x.div y) := by
    intro x
    simp only [Operator.apply, hy, Bool.false_eq_true, if_false]
  rw [Infix.value_binary, hright]
  exact congrArg left.value.bind (funext happly)

theorem value_hundredth (phrase : Infix) :
    (hundredth phrase).value = phrase.value.bind fun x => .ok (x.div hundred) := by
  have hread : (Infix.literal false "100".toList).value = .ok hundred := by decide +kernel
  have hzero : hundred.isZero = false := by decide +kernel
  exact value_over hread hzero

theorem buffer_overHundred {phrase : Infix} (hfits : phrase.Fits Infix.loosest)
    (htext : phrase.text = c.buffer) : c.overHundred.buffer = (hundredth phrase).text := by
  have htyped : '(' :: (c.buffer ++ ")/100".toList) = (hundredth phrase).text := by
    rw [← htext]
    simp [hundredth, Infix.text, Operator.symbol, signText]
  have hchars := List.all_eq_true.mp (Infix.all_isInfixChar_text (fits_hundredth hfits))
  rw [overHundred, htyped]
  exact buffer_typing fun hmem => ne_separator_of_isInfixChar (hchars separator hmem) rfl

/-- With nothing pending, percent takes a hundredth of the operand. -/
theorem percent_of_operand (hrunning : c.isStopped = false) (hpending : c.pending = none)
    {outcome : Except Fault Binary64} (hoperand : c.operand = outcome.map some) :
    c.percent = c.orStop (((outcome.bind fun x => .ok (x.div hundred)).bind
      (Binary64.accept c.places)).map fun x => c.typing (c.textOf x)) := by
  have hshare : ∀ x, c.percentage x = x.div hundred := by
    intro x
    rw [percentage, hpending]
  unfold percent convert
  rw [whenRunning_of_running hrunning, hoperand]
  cases outcome with
  | error fault => rfl
  | ok x =>
    show c.orStop ((Binary64.accept c.places (c.percentage x)).bind _) =
      c.orStop ((Binary64.accept c.places (x.div hundred)).map _)
    rw [hshare]
    cases Binary64.accept c.places (x.div hundred) <;> rfl

/-- **Percent of an expression.**  While no operator is pending, percent on a phrase of the grammar
leads to the same alarm, or to the same display, as equals on the phrase in parentheses over one
hundred. -/
theorem percent_eq_overHundred (c : Calculator) (hrunning : c.isStopped = false)
    (hmode : c.options.mode = .expression) (hpending : c.pending = none)
    (hsentence : IsSentence c.buffer) :
    c.percent.alarm = c.overHundred.equals.alarm ∧
      c.percent.display = c.overHundred.equals.display := by
  obtain ⟨phrase, hfits, htext⟩ := hsentence
  have hchars : ∀ ch ∈ c.buffer, isInfixChar ch = true := by
    rw [← htext]
    exact List.all_eq_true.mp (Infix.all_isInfixChar_text hfits)
  have hplus : c.buffer.head? ≠ some '+' := by
    rw [← htext]
    exact Infix.head?_text_ne_plus hfits
  have hoperand : c.operand = phrase.value.map some := by
    rw [operand_eq_evaluate hmode hchars hplus, ← htext, evaluate_text hfits]
  have hwrapped := buffer_overHundred hfits htext
  have hwrappedChars : ∀ ch ∈ c.overHundred.buffer, isInfixChar ch = true := by
    rw [hwrapped]
    exact List.all_eq_true.mp (Infix.all_isInfixChar_text (fits_hundredth hfits))
  -- equals divides within the phrase and percent outside: both divide the value of the phrase
  have hequals : c.overHundred.equals = c.overHundred.orStop
      (((phrase.value.bind fun x => .ok (x.div hundred)).bind
        (Binary64.accept c.places)).map (c.overHundred.complete c.overHundred.buffer)) := by
    have hrunning' : c.overHundred.isStopped = false := hrunning
    have hmode' : c.overHundred.options.mode = .expression := hmode
    rw [equals_of_expression hrunning' hmode', concludeExpression_of_all rfl hwrappedChars,
      hwrapped, evaluate_text (fits_hundredth hfits), value_hundredth]
    rfl
  rw [percent_of_operand hrunning hpending hoperand, hequals]
  cases (phrase.value.bind fun x => .ok (x.div hundred)).bind (Binary64.accept c.places) with
  | ok x => exact ⟨rfl, rfl⟩
  | error fault => exact ⟨rfl, rfl⟩

/-- `(1-3)*-2/4` -/
def signedProduct : Infix :=
  .binary .over
    (.binary .times (.group (.binary .minus (.literal false ['1']) (.literal false ['3'])))
      (.literal true ['2']))
    (.literal false ['4'])

theorem percent_eq_overHundred_signedProduct :
    let c := (make { Options.standard with mode := .expression }).typing "(1-3)*-2/4".toList
    c.isStopped = false ∧ c.options.mode = .expression ∧ c.pending = none ∧ IsSentence c.buffer ∧
      c.percent.alarm = c.overHundred.equals.alarm ∧
      c.percent.display = c.overHundred.equals.display ∧
      c.overHundred.equals.display = "0.01".toList := by
  intro c
  have hsentence : IsSentence c.buffer := ⟨signedProduct, by decide, by decide⟩
  obtain ⟨halarm, hdisplay⟩ := percent_eq_overHundred c rfl rfl rfl hsentence
  exact ⟨rfl, rfl, rfl, hsentence, halarm, hdisplay, by decide +kernel⟩

end Calculator

end Keypad
