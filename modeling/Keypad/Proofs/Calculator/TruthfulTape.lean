import Keypad.Proofs.Calculator.Coherence
import Keypad.Proofs.Calculator.Recording
import Keypad.Proofs.Display.ExponentForm
import Keypad.Proofs.Display.ReadBack
import Keypad.Proofs.Expression.Fault
import Keypad.Proofs.Expression.PlainNumber

/-!
# What an entry of a chain says

An entry is truthful if its expression evaluates to what is displayed as its result.  In a chain the
result is computed from the operands, but the expression is put together from the operands as they
are displayed: rounded to the places kept, and possibly with an exponent, which expressions do not
have.  So the entry is truthful exactly if the operands as they are displayed lead to the same
display.  Operands that are displayed as they are do; others need not, and even a division by zero
may stand on the tape with a result.

## Main definitions

* `Entry.IsTruthful`: the expression of an entry yields its result
* `Style.shown?`: the number that the text of a value denotes in an expression
* `Calculator.Applies`: the operation that equals applies in a chain, and its result

## Main results

* `evaluate_chainText`: what the expression of a chain evaluates to
* `isTruthful_chainText_iff`: which entries are truthful
* `Applies.isTruthful_of_shown`, `Applies.isTruthful_of_accept`: operands displayed as they are,
  such as rounded ones with up to three places
* `isTruthful_recorded_iff`: the entries that equals records
-/

namespace Keypad

/-- An entry whose expression evaluates to what is displayed as its result. -/
def Entry.IsTruthful (style : Style) (entry : Entry) : Prop :=
  ∃ w, evaluate (eraseSeparators entry.expression) = .ok w ∧
    ∃ x, w.accept style.places = .ok x ∧ style.write x = entry.result

/-! ## Displayed operands -/

namespace DisplayNumber

theorem head?_text_ne_plus (n : DisplayNumber) : n.text.head? ≠ some '+' := by
  obtain ⟨d, rest, hcons, hd⟩ := n.exists_unsigned_eq_cons
  rw [text, hcons]
  cases n.negative with
  | true => exact show some '-' ≠ some '+' by decide
  | false =>
    rintro ⟨⟩
    cases hd

end DisplayNumber

namespace Style

variable {style : Style} {x v : Binary64}

/-- The number that the text of a value denotes in an expression; none with an exponent, which
expressions do not have. -/
def shown? (style : Style) (x : Binary64) : Option Binary64 :=
  if 'e' ∈ style.write x then none else readDisplay? (style.write x)

/-- A value is written with an exponent, or as a number that its text denotes. -/
theorem shown?_cases (style : Style) (hx : x.isFinite = true) :
    'e' ∈ style.write x ∧ style.shown? x = none ∨
      ∃ n : DisplayNumber, eraseSeparators (style.write x) = n.text ∧
        style.shown? x = some n.value := by
  cases hwide : style.isWide x with
  | true =>
    obtain ⟨negative, units, e, htext⟩ :=
      exists_scientific_eq (style.places - 1) (Binary64.isFinite_roundTo style.places hx)
    have hmem : 'e' ∈ style.write x := by
      rw [write_of_isWide hwide, htext]
      exact List.mem_append_right _ List.mem_cons_self
    exact Or.inl ⟨hmem, if_pos hmem⟩
  | false =>
    -- written in digits, the text is a number of the display, read as what it denotes
    obtain ⟨n, hn, hfinite⟩ := exists_displayNumber_literal style hx
    have htext : eraseSeparators (style.write x) = n.text :=
      (eraseSeparators_write_of_not_isWide hwide).trans hn
    refine Or.inr ⟨n, htext, ?_⟩
    rw [shown?, if_neg (exponent_notMem_of_eraseSeparators htext),
      ← (isTidy_write style x).readDisplay?_eraseSeparators, htext, n.readDisplay?_text,
      Option.filter_some, if_pos hfinite]

/-- With up to three places an accepted value is shown as it is. -/
theorem shown?_of_accept (hpos : 1 ≤ style.places) (h : style.places ≤ 3)
    (hx : v.accept style.places = .ok x) : style.shown? x = some x.dropZeroSign := by
  rw [shown?, if_neg (exponent_notMem_write_of_accept hx),
    readDisplay?_write_of_places_le hpos h hx]

end Style

namespace Calculator

variable {c : Calculator} {op : Operator} {left right result : Binary64} {text : Text}

/-! ## The expression of a chain -/

theorem eraseSeparators_chainText (c : Calculator) (left : Binary64) (op : Operator)
    (right : Binary64) : eraseSeparators (c.chainText left op right) =
      eraseSeparators (c.textOf left) ++ [' ', op.symbol, ' '] ++
        eraseSeparators (c.textOf right) := by
  have hmiddle : eraseSeparators [' ', op.symbol, ' '] = [' ', op.symbol, ' '] := by
    cases op <;> decide
  rw [chainText, eraseSeparators_append, eraseSeparators_append, hmiddle]

/-- **Operands without an exponent** make the operation between the numbers they denote. -/
theorem evaluate_chainText {n m : DisplayNumber} (hleft : eraseSeparators (c.textOf left) = n.text)
    (hright : eraseSeparators (c.textOf right) = m.text) :
    evaluate (eraseSeparators (c.chainText left op right)) = op.apply n.value m.value := by
  have hblanks : withoutBlanks (n.text ++ [' ', op.symbol, ' '] ++ m.text) =
      n.text ++ op.symbol :: m.text := by
    have hmiddle : withoutBlanks [' ', op.symbol, ' '] = [op.symbol] := by cases op <;> decide
    have hn := withoutBlanks_of_all n.isInfixChar_of_mem_text
    have hm := withoutBlanks_of_all m.isInfixChar_of_mem_text
    unfold withoutBlanks at hmiddle hn hm ⊢
    rw [List.filter_append, List.filter_append, hn, hm, hmiddle, List.append_assoc,
      List.singleton_append]
  rw [eraseSeparators_chainText, hleft, hright, ← evaluate_withoutBlanks, hblanks]
  exact evaluate_append_symbol n.isInfixChar_of_mem_text n.head?_text_ne_plus n.read?_text
    m.isInfixChar_of_mem_text m.head?_text_ne_plus m.read?_text op

/-- **An operand with an exponent** makes no expression. -/
theorem evaluate_chainText_ne_ok (h : 'e' ∈ c.textOf left ∨ 'e' ∈ c.textOf right) (w : Binary64) :
    evaluate (eraseSeparators (c.chainText left op right)) ≠ .ok w := by
  have hkept : ∀ {t : Text}, 'e' ∈ t → 'e' ∈ eraseSeparators t :=
    fun hmem => List.mem_filter.mpr ⟨hmem, by decide⟩
  have hmem : 'e' ∈ eraseSeparators (c.chainText left op right) := by
    rw [eraseSeparators_chainText]
    rcases h with h | h
    · exact List.mem_append_left _ (List.mem_append_left _ (hkept h))
    · exact List.mem_append_right _ (hkept h)
  obtain ⟨found, hfound⟩ :=
    exists_evaluate_eq_invalidCharacter hmem (by decide) (by decide)
  rw [hfound]
  exact nofun

/-- **Which entries are truthful**: those whose operands, as they are displayed, lead to the same
display. -/
theorem isTruthful_chainText_iff (hleft : left.isFinite = true) (hright : right.isFinite = true) :
    Entry.IsTruthful c.style ⟨c.chainText left op right, text⟩ ↔
      ∃ l r x, c.style.shown? left = some l ∧ c.style.shown? right = some r ∧
        c.reduce op l r = .ok x ∧ c.textOf x = text := by
  -- an operand with an exponent makes both sides false, so both operands are written in digits
  rcases c.style.shown?_cases hleft with ⟨hmem, hnone⟩ | ⟨n, hn, hl⟩
  · refine iff_of_false ?_ ?_
    · rintro ⟨w, hw, -⟩
      exact evaluate_chainText_ne_ok (Or.inl hmem) w hw
    · rintro ⟨l, r, x, hl, -⟩
      rw [hnone] at hl
      cases hl
  rcases c.style.shown?_cases hright with ⟨hmem, hnone⟩ | ⟨m, hm, hr⟩
  · refine iff_of_false ?_ ?_
    · rintro ⟨w, hw, -⟩
      exact evaluate_chainText_ne_ok (Or.inr hmem) w hw
    · rintro ⟨l, r, x, -, hr, -⟩
      rw [hnone] at hr
      cases hr
  have hvalue : evaluate (eraseSeparators (c.chainText left op right)) =
      op.apply n.value m.value := evaluate_chainText hn hm
  rw [hl, hr]
  constructor
  · rintro ⟨w, hw, x, hx, htext⟩
    exact ⟨_, _, x, rfl, rfl, bind_eq_ok_iff.mpr ⟨w, hvalue.symm.trans hw, hx⟩, htext⟩
  · rintro ⟨l, r, x, ⟨⟩, ⟨⟩, hreduce, htext⟩
    obtain ⟨w, hw, hx⟩ := bind_eq_ok_iff.mp hreduce
    exact ⟨w, hvalue.trans hw, x, hx, htext⟩

/-! ## The operation of a chain -/

/-- The operation that equals applies in a chain, and its result. -/
structure Applies (c : Calculator) (op : Operator) (left right result : Binary64) : Prop where
  pending : c.pending = some op
  accumulator : c.accumulator = some left
  operand : c.rightOperand? left = some right
  reduces : c.reduce op left right = .ok result

/-- In a chain equals records the operation that it applies. -/
theorem exists_applies_of_recorded? (hmode : c.options.mode = .sequential) {entry : Entry}
    (h : c.recorded? (.press .equals) = some entry) :
    ∃ op left right result, c.Applies op left right result ∧
      entry = ⟨c.chainText left op right, c.textOf result⟩ := by
  have hrecorded : c.recorded? (.press .equals) = if c.isStopped || c.equals.isStopped then none
      else c.computation?.map fun expression => ⟨expression, c.equals.display⟩ := rfl
  rw [hrecorded] at h
  split at h
  · cases h
  rename_i hruns
  rw [Bool.or_eq_true, not_or, Bool.not_eq_true, Bool.not_eq_true] at hruns
  obtain ⟨hrunning, hconcludes⟩ := hruns
  obtain ⟨expression, hexpression, rfl⟩ := Option.map_eq_some_iff.mp h
  rw [computation?, hmode] at hexpression
  dsimp only at hexpression
  split at hexpression
  · rename_i op left hpending haccumulator
    obtain ⟨right, hright, rfl⟩ := Option.map_eq_some_iff.mp hexpression
    have hequals := equals_of_operand hrunning hmode hpending haccumulator hright
    cases hreduce : c.reduce op left right with
    | error fault =>
      -- then equals would have stopped the calculator
      rw [hequals, hreduce] at hconcludes
      cases hconcludes
    | ok result =>
      rw [hreduce] at hequals
      refine ⟨op, left, right, result, ⟨hpending, haccumulator, hright, hreduce⟩, ?_⟩
      rw [hequals]
      rfl
  · cases hexpression

/-- **Operands that are displayed as they are**, but for the sign of a zero, make a truthful
entry. -/
theorem Applies.isTruthful_of_shown (h : c.Applies op left right result)
    (hleft : left.isFinite = true) (hright : right.isFinite = true)
    (hl : c.style.shown? left = some left.dropZeroSign)
    (hr : c.style.shown? right = some right.dropZeroSign) :
    Entry.IsTruthful c.style ⟨c.chainText left op right, c.textOf result⟩ := by
  -- the expression may see zeros of the other sign, which neither the result nor its text shows
  obtain ⟨v, happly, haccept⟩ := bind_eq_ok_iff.mp h.reduces
  obtain ⟨w, happly', hsame⟩ :=
    (Binary64.sameNumber_dropZeroSign left).apply (Binary64.sameNumber_dropZeroSign right) happly
  obtain ⟨x, haccept', hresult⟩ := hsame.accept haccept
  exact (isTruthful_chainText_iff hleft hright).mpr ⟨_, _, x, hl, hr,
    bind_eq_ok_iff.mpr ⟨w, happly', haccept'⟩, (hresult.write_eq c.style).symm⟩

/-- With up to three places, operands that were rounded to these places make a truthful entry. -/
theorem Applies.isTruthful_of_accept (h : c.Applies op left right result) (hpos : 1 ≤ c.places)
    (hplaces : c.places ≤ 3) {v w : Binary64} (hleft : v.accept c.places = .ok left)
    (hright : w.accept c.places = .ok right) :
    Entry.IsTruthful c.style ⟨c.chainText left op right, c.textOf result⟩ :=
  h.isTruthful_of_shown (Binary64.isFinite_of_accept hleft) (Binary64.isFinite_of_accept hright)
    (c.style.shown?_of_accept hpos hplaces hleft) (c.style.shown?_of_accept hpos hplaces hright)

/-- **When the tape is truthful.**  What equals records in a chain is the operation that it applies,
between the operands as they are displayed, with its result as it is displayed.  This entry is
truthful exactly if the operator leads from the operands as they are displayed to the same display,
and so wherever both operands are displayed as they are, but for the sign of a zero. -/
theorem isTruthful_recorded_iff (hreachable : Reachable c) (hmode : c.options.mode = .sequential)
    {entry : Entry} (hentry : c.recorded? (.press .equals) = some entry) :
    ∃ op left right result, c.Applies op left right result ∧
      entry = ⟨c.chainText left op right, c.textOf result⟩ ∧
      (entry.IsTruthful c.style ↔
        ∃ l r x, c.style.shown? left = some l ∧ c.style.shown? right = some r ∧
          c.reduce op l r = .ok x ∧ c.textOf x = c.textOf result) ∧
      (c.style.shown? left = some left.dropZeroSign →
        c.style.shown? right = some right.dropZeroSign → entry.IsTruthful c.style) := by
  obtain ⟨op, left, right, result, happlies, rfl⟩ := exists_applies_of_recorded? hmode hentry
  have hleft := hreachable.coherent.finite_accumulator left happlies.accumulator
  have hright := hreachable.coherent.rightOperand happlies.accumulator happlies.operand
  exact ⟨op, left, right, result, happlies, rfl, isTruthful_chainText_iff hleft hright,
    happlies.isTruthful_of_shown hleft hright⟩

/-- `1234.5 * -2 =`, grouped: a separator and a second sign do not keep the expression from
evaluating to the result. -/
theorem isTruthful_recorded_grouped :
    let c := (make { Options.standard with grouping := true }).pressAll
      [.digit '1', .digit '2', .digit '3', .digit '4', .point, .digit '5', .operator .times,
        .digit '2', .changeSign]
    let entry : Entry := ⟨"1,234.5 * -2".toList, "-2,469".toList⟩
    Reachable c ∧ c.options.mode = .sequential ∧ c.recorded? (.press .equals) = some entry ∧
      entry.IsTruthful c.style := by
  intro c entry
  have hreachable : Reachable c := (Reachable.make _).pressAll _
  have hmode : c.options.mode = .sequential := by decide +kernel
  have hentry : c.recorded? (.press .equals) = some entry := by decide +kernel
  refine ⟨hreachable, hmode, hentry, ?_⟩
  obtain ⟨op, left, right, result, happlies, -, -, hexact⟩ :=
    isTruthful_recorded_iff hreachable hmode hentry
  have hleft : left = Decimal.toBinary64 ⟨false, 12345, -1⟩ :=
    Option.some.inj (happlies.accumulator.symm.trans (by decide +kernel))
  have hright : right = Binary64.ofInt (-2) := by
    refine Option.some.inj (happlies.operand.symm.trans ?_)
    rw [hleft]
    decide +kernel
  rw [hleft, hright] at hexact
  exact hexact (by decide +kernel) (by decide +kernel)

/-- **The slip**: to three places `1 / 0.0004 =` records that one divided by zero is `2500`. -/
theorem not_isTruthful_recorded :
    let c := (make .standard).pressAll
      [.digit '1', .operator .over, .digit '0', .point, .digit '0', .digit '0', .digit '0',
        .digit '4']
    let entry : Entry := ⟨"1 / 0".toList, "2500".toList⟩
    Reachable c ∧ c.isStopped = false ∧ c.options.mode = .sequential ∧
      c.recorded? (.press .equals) = some entry ∧
      evaluate (eraseSeparators entry.expression) = .error .divisionByZero ∧
      ¬ entry.IsTruthful c.style := by
  intro c entry
  have hreachable : Reachable c := (Reachable.make _).pressAll _
  have hvalue : evaluate (eraseSeparators entry.expression) = .error .divisionByZero := by
    decide +kernel
  refine ⟨hreachable, by decide +kernel, by decide +kernel, by decide +kernel, hvalue, ?_⟩
  rintro ⟨w, hw, -⟩
  rw [hvalue] at hw
  cases hw

end Calculator

end Keypad
