import Keypad.Expression.Evaluation
import Keypad.Proofs.Expression.Order

/-!
# The value of a written phrase

Evaluating a phrase as it is written is evaluating it by its structure: operands from left to
right, then the operator, stopping at the first division by zero.

## Main definitions

* `Infix.DividesByZero`: somewhere on the way a right operand of a division is zero

## Main results

* `evaluate_text`: a written phrase evaluates to what the phrase is worth
* `value_eq_error_iff`: a phrase has no value exactly if it divides by zero on the way
* `evaluate_phrase`: both together
-/

namespace Keypad

namespace Infix

/-- The evaluation of a phrase meets a division by zero: in an operand that it reaches, or at the
operator itself once both operands have a value. -/
inductive DividesByZero : Infix → Prop where
  | group {inner : Infix} : DividesByZero inner → DividesByZero (.group inner)
  | left {op : Operator} {left right : Infix} :
    DividesByZero left → DividesByZero (.binary op left right)
  | right {op : Operator} {left right : Infix} {x : Binary64} :
    left.value = .ok x → DividesByZero right → DividesByZero (.binary op left right)
  | here {left right : Infix} {x y : Binary64} :
    left.value = .ok x → right.value = .ok y → y.isZero = true →
      DividesByZero (.binary .over left right)

theorem value_binary (op : Operator) (left right : Infix) :
    (Infix.binary op left right).value =
      left.value.bind fun x => right.value.bind fun y => op.apply x y := rfl

theorem value_of_dividesByZero {phrase : Infix} (h : phrase.DividesByZero) :
    phrase.value = .error .divisionByZero := by
  induction h with
  | group _ ih => exact ih
  | left _ ih =>
    rw [value_binary, ih]
    rfl
  | right hleft _ ih =>
    rw [value_binary, hleft, ih]
    rfl
  | here hleft hright hzero =>
    rw [value_binary, hleft, hright]
    exact (Operator.apply_eq_error_iff _ _ _ _).mpr ⟨rfl, hzero, rfl⟩

/-- A written phrase fails in no other way: its literals are all read. -/
theorem dividesByZero_of_value {level : Nat} {phrase : Infix} (h : phrase.Fits level)
    {fault : Fault} (hvalue : phrase.value = .error fault) :
    fault = .divisionByZero ∧ phrase.DividesByZero := by
  induction phrase generalizing level with
  | literal negative digits =>
    rw [value, read?_eq_literalValue h] at hvalue
    cases hvalue
  | group inner ih =>
    obtain ⟨hfault, hzero⟩ := ih h hvalue
    exact ⟨hfault, .group hzero⟩
  | binary op left right ihl ihr =>
    obtain ⟨-, hleft, hright⟩ := h
    rw [value_binary] at hvalue
    cases hl : left.value with
    | error cause =>
      rw [hl] at hvalue
      cases hvalue
      obtain ⟨hfault, hzero⟩ := ihl hleft hl
      exact ⟨hfault, .left hzero⟩
    | ok x =>
      rw [hl] at hvalue
      cases hr : right.value with
      | error cause =>
        rw [hr] at hvalue
        cases hvalue
        obtain ⟨hfault, hzero⟩ := ihr hright hr
        exact ⟨hfault, .right hl hzero⟩
      | ok y =>
        rw [hr] at hvalue
        obtain ⟨rfl, hzero, rfl⟩ := (Operator.apply_eq_error_iff _ _ _ _).mp hvalue
        exact ⟨rfl, .here hl hr hzero⟩

/-- A phrase has no value exactly if its evaluation meets a division by zero. -/
theorem value_eq_error_iff {level : Nat} {phrase : Infix} (h : phrase.Fits level)
    (fault : Fault) :
    phrase.value = .error fault ↔ fault = .divisionByZero ∧ phrase.DividesByZero := by
  constructor
  · exact dividesByZero_of_value h
  · rintro ⟨rfl, hzero⟩
    exact value_of_dividesByZero hzero

end Infix

/-! ## The characters of a phrase -/

theorem withoutBlanks_of_all {t : Text} (h : ∀ c ∈ t, isInfixChar c = true) :
    withoutBlanks t = t :=
  List.filter_eq_self.mpr fun c hc => by rw [isBlank_of_isInfixChar (h c hc)]; rfl

theorem checkCharacters_of_all {t : Text} (h : ∀ c ∈ t, isInfixChar c = true) :
    checkCharacters t = .ok () := by
  have hfind : (t.find? fun c => !isInfixChar c) = none :=
    List.find?_eq_none.mpr fun c hc => by simp [h c hc]
  rw [checkCharacters, hfind]

/-! ## Evaluation -/

/-- Evaluation step by step: characters, tokens, order and value. -/
theorem evaluate_eq (source : Text) :
    evaluate source =
      (checkCharacters (withoutBlanks source)).bind fun _ =>
        (Token.ofText (withoutBlanks source)).bind fun tokens =>
          if tokens = [] then .error .emptyExpression
          else (postfixOrder tokens).bind postfixValue := by
  unfold evaluate
  dsimp only
  cases checkCharacters (withoutBlanks source) with
  | error fault => rfl
  | ok _ =>
    cases Token.ofText (withoutBlanks source) with
    | error fault => rfl
    | ok tokens => cases tokens <;> rfl

/-- Blanks do not count. -/
theorem evaluate_withoutBlanks (source : Text) :
    evaluate (withoutBlanks source) = evaluate source := by
  have hself : withoutBlanks (withoutBlanks source) = withoutBlanks source := by
    simp [withoutBlanks]
  rw [evaluate_eq, evaluate_eq source, hself]

/-- **A written phrase evaluates to what the phrase is worth.** -/
theorem evaluate_text {level : Nat} {phrase : Infix} (h : phrase.Fits level) :
    evaluate phrase.text = phrase.value := by
  have hchars := List.all_eq_true.mp (Infix.all_isInfixChar_text h)
  have hblanks := withoutBlanks_of_all hchars
  rw [evaluate_eq, hblanks, checkCharacters_of_all hchars, Token.ofText_text h]
  simp only [Except.bind]
  rw [if_neg phrase.tokens_ne_nil, postfixOrder_tokens h]
  exact (postfixValue_postorder phrase.tree).trans (Infix.value_tree h)

/-- **Evaluation on the grammar.**  A phrase of the grammar, as it is written, evaluates to what it
is worth by its structure, and fails exactly if a right operand of a division is zero on the
way, as a division by zero. -/
theorem evaluate_phrase (phrase : Infix) (h : phrase.Fits Infix.loosest) :
    evaluate phrase.text = phrase.value ∧
      ∀ fault, evaluate phrase.text = .error fault ↔
        fault = .divisionByZero ∧ phrase.DividesByZero :=
  ⟨evaluate_text h, fun fault => by rw [evaluate_text h, Infix.value_eq_error_iff h]⟩

/-- `2+3*4` -/
def Infix.sumOfProduct : Infix :=
  .binary .plus (.literal false ['2'])
    (.binary .times (.literal false ['3']) (.literal false ['4']))

theorem evaluate_phrase_sumOfProduct :
    Infix.sumOfProduct.Fits Infix.loosest ∧
      evaluate "2+3*4".toList = .ok (.ofNat 14) ∧
      ∀ fault, evaluate "2+3*4".toList = .error fault ↔
        fault = .divisionByZero ∧ Infix.sumOfProduct.DividesByZero := by
  have hfits : Infix.sumOfProduct.Fits Infix.loosest := by decide
  have hvalue : Infix.sumOfProduct.value = .ok (.ofNat 14) := by decide +kernel
  have hphrase := evaluate_phrase Infix.sumOfProduct hfits
  exact ⟨hfits, hphrase.1.trans hvalue, hphrase.2⟩

end Keypad
