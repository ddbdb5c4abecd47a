import Keypad.Proofs.Calculator.ChainFold
import Keypad.Proofs.Session.TypedExpression

/-!
# One operation in either mode

A number, an operator and a second number are computed alike in both modes.  In sequential mode
equals applies the operator to the numbers as the display reads them.  In expression mode the same
keys type a text in which every number keeps its point, so equals evaluates that text, a phrase of
two literals and one operator: it applies the operator to the literals as the scanner reads them.

## Main results

* `TypedNumber.isLiteral_text`, `TypedNumber.value_literal`: a typed number is a literal of its
  value
* `isTypable_operation`: one operation is typed without loss
* `evaluate_operation`: an expression of one operation has the value of that operation
* `pressAll_either_mode`: the keys of one operation lead to one display and one alarm in both modes
-/

namespace Keypad

/-! ## Numbers as literals -/

namespace TypedNumber

theorem read?_text (n : TypedNumber) :
    Numeral.read? (signText false ++ n.text) = some n.value := by
  have hread := n.readDisplay?_text
  rw [readDisplay?_of_isNumeralChar n.isNumeralChar_of_mem_text] at hread
  rw [Numeral.read?_signText n.isNumeralChar_of_mem_text]
  exact (Option.filter_eq_some_iff.mp hread).1

theorem isLiteral_text (n : TypedNumber) : isLiteral n.text = true := by
  rw [← Numeral.isSome_read?_signText n.isNumeralChar_of_mem_text false, n.read?_text]
  rfl

/-- As a literal of an expression a typed number has the value it is read with. -/
theorem value_literal (n : TypedNumber) : (Infix.literal false n.text).value = .ok n.value := by
  rw [Infix.value, n.read?_text]

theorem exists_text_eq_cons (n : TypedNumber) :
    ∃ d rest, n.text = d :: rest ∧ d.isDigit = true ∧
      (d = '0' → rest = [] ∨ rest.head? = some '.') := by
  obtain ⟨d, rest, hwhole⟩ := List.exists_cons_of_ne_nil n.whole_ne_nil
  have hd : d.isDigit = true := n.whole_digits d (by simp [hwhole])
  refine ⟨d, _, by rw [text, hwhole, List.cons_append], hd, ?_⟩
  rintro rfl
  -- a leading zero stands alone before the point
  have halone : rest = [] := by simpa [hwhole] using n.whole_of_zero
  cases n.places? with
  | none => exact Or.inl (by simp [halone])
  | some places => exact Or.inr (by simp [halone])

end TypedNumber

/-! ## The text of one operation -/

/-- A run without a mark lies before it or behind it. -/
theorem infix_of_infix_append_cons {run s t : Text} {mark : Char} (h : run <:+: s ++ mark :: t)
    (hmark : mark ∉ run) : run <:+: s ∨ run <:+: t := by
  obtain ⟨before, after, heq⟩ := h
  rcases List.append_eq_append_iff.mp heq with ⟨u, hs, -⟩ | ⟨u, hs, ht⟩
  · exact Or.inl ⟨before, u, hs.symm⟩
  cases u with
  | nil => exact Or.inl ⟨before, [], by simpa using hs⟩
  | cons c u =>
    obtain ⟨rfl, rfl⟩ := List.cons.inj ht
    -- the mark stands behind what comes before the run, so before the run itself
    rcases List.append_eq_append_iff.mp hs with ⟨v, -, hrun⟩ | ⟨v, hbefore, hrun⟩
    · exact absurd (hrun ▸ List.mem_append_right v List.mem_cons_self) hmark
    cases v with
    | nil =>
      have hrun : mark :: u = run := hrun
      exact absurd (hrun ▸ List.mem_cons_self) hmark
    | cons c v =>
      obtain ⟨rfl, rfl⟩ := List.cons.inj hrun
      exact Or.inr ⟨v, after, by simp⟩

variable (op : Operator) (a b : TypedNumber)

/-- One operation on two numbers, as a phrase. -/
def operationPhrase : Infix := .binary op (.literal false a.text) (.literal false b.text)

theorem text_operationPhrase : (operationPhrase op a b).text = a.text ++ op.symbol :: b.text := rfl

theorem fits_operationPhrase : (operationPhrase op a b).Fits Infix.loosest := by
  refine ⟨?_, a.isLiteral_text, b.isLiteral_text⟩
  cases op <;> decide

theorem evaluate_operation :
    evaluate (a.text ++ op.symbol :: b.text) = op.apply a.value b.value := by
  rw [← text_operationPhrase, evaluate_text (fits_operationPhrase op a b), operationPhrase,
    Infix.value_binary, a.value_literal, b.value_literal]
  rfl

theorem count_point_of_isLiteral {t : Text} (h : isLiteral t = true) : t.count '.' ≤ 1 := by
  simp only [isLiteral_eq, Bool.and_eq_true, decide_eq_true_eq] at h
  exact h.1.2

/-- **One operation is typed without loss**: no number in it is continued by the other. -/
theorem isTypable_operation : IsTypable (a.text ++ op.symbol :: b.text) := by
  obtain ⟨d, rest, htext, hd, hzero⟩ := a.exists_text_eq_cons
  have hchars := List.all_eq_true.mp (Infix.all_isInfixChar_text (fits_operationPhrase op a b))
  refine ⟨hchars, ?_, ?_, ?_⟩
  · simp [htext, beginsOperand, hd]
  · -- a leading zero is followed by the point, or by the operator
    intro hfirst
    obtain rfl : d = '0' := by simpa [htext] using hfirst
    rw [htext]
    rcases hzero rfl with rfl | hpoint
    · cases op <;> rfl
    · cases rest with
      | nil => cases hpoint
      | cons c rest =>
        obtain rfl : c = '.' := by simpa using hpoint
        rfl
  · -- the operator is no part of a run of digits and points, so the run lies in one of the numbers
    intro run hrun hnumeral
    have hmark : op.symbol ∉ run := by
      intro hmem
      have hsymbol := hnumeral _ hmem
      cases op <;> exact absurd hsymbol (by decide)
    rcases infix_of_infix_append_cons hrun hmark with hinside | hinside
    · exact (hinside.sublist.count_le _).trans (count_point_of_isLiteral a.isLiteral_text)
    · exact (hinside.sublist.count_le _).trans (count_point_of_isLiteral b.isLiteral_text)

/-! ## The keys of one operation -/

/-- The keys that type one operation and ask for its result. -/
def operationKeys : List Key := a.keys ++ .operator op :: (b.keys ++ [.equals])

namespace Calculator

open Session

theorem press_keyOf (c : Calculator) {ch : Char} (h : isNumeralChar ch = true) :
    c.press (TypedNumber.keyOf ch) = typeCharacter c ch := by
  have hinfix : isInfixChar ch = true := by simp [isInfixChar, h]
  rw [typeCharacter, if_pos hinfix]
  by_cases hpoint : ch = '.'
  · subst hpoint
    rfl
  · rw [TypedNumber.keyOf, if_neg hpoint, ofLabel_digit (isDigit_of_isNumeralChar h hpoint)]

/-- The keys of a number type its characters. -/
theorem pressAll_keys_eq_typeWord (c : Calculator) (n : TypedNumber) :
    c.pressAll n.keys = typeWord c n.text := by
  have hchars := n.isNumeralChar_of_mem_text
  unfold TypedNumber.keys typeWord
  generalize n.text = t at hchars
  induction t generalizing c with
  | nil => rfl
  | cons ch rest ih =>
    rw [List.map_cons, pressAll_cons, press_keyOf c (hchars ch List.mem_cons_self)]
    exact ih _ fun d hd => hchars d (List.mem_cons_of_mem ch hd)

/-- In expression mode the keys of one operation put its text on the display. -/
theorem pressAll_operation_of_expression {options : Options} (hmode : options.mode = .expression) :
    (make options).pressAll (a.keys ++ .operator op :: b.keys) =
      (make options).typing (a.text ++ op.symbol :: b.text) := by
  have hsymbol : ∀ c : Calculator, c.press (.operator op) = typeCharacter c op.symbol := by
    intro c
    rw [typeCharacter, if_pos (Infix.isInfixChar_symbol op), ofLabel_symbol]
  -- the keys of the numbers and of the operator type one word
  have hword : (make options).pressAll (a.keys ++ .operator op :: b.keys) =
      typeWord (make options) (a.text ++ op.symbol :: b.text) := by
    rw [pressAll_append, pressAll_keys_eq_typeWord, pressAll_cons, hsymbol,
      pressAll_keys_eq_typeWord]
    unfold typeWord
    rw [List.foldl_append, List.foldl_cons]
  rw [hword]
  exact typeWord_of_fresh rfl hmode rfl (isTypable_operation op a b)

/-- **One operation in sequential mode.** -/
theorem pressAll_operationKeys_of_sequential {options : Options}
    (hmode : options.mode = .sequential) :
    (make options).pressAll (operationKeys op a b) =
      (operandTyped options a.value (op, b)).equals := by
  have hkeys : operationKeys op a b = chainKeys a ([] ++ [(op, b)]) ++ [.equals] := by
    simp [operationKeys, chainKeys]
  rw [hkeys, pressAll_append, pressAll_chainKeys hmode]
  rfl

/-- **One operation in expression mode.** -/
theorem pressAll_operationKeys_of_expression {options : Options}
    (hmode : options.mode = .expression) :
    (make options).pressAll (operationKeys op a b) =
      ((make options).typing (a.text ++ op.symbol :: b.text)).equals := by
  have hkeys : operationKeys op a b = (a.keys ++ .operator op :: b.keys) ++ [.equals] := by
    simp [operationKeys]
  rw [hkeys, pressAll_append, pressAll_operation_of_expression op a b hmode]
  rfl

/-- **Both modes agree on every single operation.**  A number, an operator, a second number and
equals lead from a calculator just switched on to the same display in both modes, and to the same
alarm or none, whatever the other options are. -/
theorem pressAll_either_mode (options : Options) :
    let keys := operationKeys op a b
    let chain := (make { options with mode := .sequential }).pressAll keys
    let expression := (make { options with mode := .expression }).pressAll keys
    chain.display = expression.display ∧ chain.alarm = expression.alarm := by
  intro keys chain expression
  have hchain : chain = _ :=
    (pressAll_operationKeys_of_sequential op a b rfl).trans
      (equals_operandTyped rfl a.value (op, b))
  have hexpression : expression = _ :=
    (pressAll_operationKeys_of_expression op a b rfl).trans
      (equals_typing _ rfl (isTypable_operation op a b))
  -- the one computation that both modes make
  have hsame : (op.apply a.value b.value).bind (Binary64.accept options.precision.toNat) =
      chainStep options.precision.toNat a.value (op, b) := rfl
  rw [hchain, hexpression, evaluate_operation]
  dsimp only
  rw [hsame]
  cases chainStep options.precision.toNat a.value (op, b) with
  | ok result => exact ⟨rfl, rfl⟩
  | error fault => exact ⟨rfl, rfl⟩

end Calculator

end Keypad
