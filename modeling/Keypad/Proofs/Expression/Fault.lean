import Keypad.Proofs.Expression.Run
import Keypad.Proofs.Expression.Value
import Keypad.Proofs.Outcome

/-!
# How the evaluation of a text fails

The characters of a text are checked before anything else.  So a text with a foreign character is
refused for the first of them, and one without is never refused for a character: the scanner and
the reordering find it malformed, and the value may divide by zero.

## Main definitions

* `Fault.isForeign`: the fault of a foreign character

## Main results

* `eq_malformed_of_scan`, `eq_malformed_of_postfixOrder`, `fault_of_valueOver`: the faults of the
  stages
* `fault_of_evaluate`: the faults of evaluation without foreign characters
* `exists_evaluate_eq_invalidCharacter`: with one, evaluation is refused for it
-/

namespace Keypad

variable {t : Text} {fault : Fault}

/-- The fault of a foreign character. -/
def Fault.isForeign : Fault → Bool
  | .invalidCharacter _ => true
  | _ => false

/-- No other fault has the message of a foreign character. -/
theorem Fault.message_eq_iff (fault : Fault) :
    fault.message = "Invalid character".toList ↔ fault.isForeign = true := by
  cases fault with
  | invalidCharacter found => exact iff_of_true rfl rfl
  | _ => exact iff_of_false (by decide) Bool.false_ne_true

/-! ## Stages -/

/-- The scanner fails on a broken number only. -/
theorem eq_malformed_of_scan {previous : Option Token} (ht : ∀ c ∈ t, isInfixChar c = true)
    (h : Token.scan previous t = .error fault) : fault = .malformed :=
  ((Token.scan_eq_error_iff ht previous fault).mp h).1

theorem eq_malformed_of_postfixOrder {tokens : List Token}
    (h : postfixOrder tokens = .error fault) : fault = .malformed := by
  unfold postfixOrder at h
  split at h
  · cases h
  · cases h
    rfl

theorem isForeign_of_apply {op : Operator} {left right : Binary64}
    (h : op.apply left right = .error fault) : fault.isForeign = false := by
  obtain ⟨-, -, rfl⟩ := (Operator.apply_eq_error_iff _ _ _ _).mp h
  rfl

/-- Over a stack of operands, tokens are out of step or divide by zero. -/
theorem fault_of_valueOver {stack : List Binary64} {tokens : List Token}
    (h : valueOver stack tokens = .error fault) : fault = .malformed ∨ fault = .divisionByZero := by
  fun_induction valueOver stack tokens with
  | case1 => cases h
  | case2 => cases h; exact Or.inl rfl
  | case3 _ _ _ ih => exact ih h
  | case4 _ _ _ _ _ cause hcause =>
    cases h
    exact Or.inr ((Operator.apply_eq_error_iff _ _ _ _).mp hcause).2.2
  | case5 _ _ _ _ _ _ _ ih => exact ih h
  | case6 => cases h; exact Or.inl rfl

/-! ## Evaluation -/

/-- Without foreign characters evaluation goes on with the tokens. -/
theorem evaluate_of_all (ht : ∀ c ∈ withoutBlanks t, isInfixChar c = true) :
    evaluate t = (Token.ofText (withoutBlanks t)).bind fun tokens =>
      if tokens = [] then .error .emptyExpression
      else (postfixOrder tokens).bind postfixValue := by
  rw [evaluate_eq, checkCharacters_of_all ht]
  rfl

/-- **Without foreign characters** the text is malformed, divides by zero or holds nothing. -/
theorem fault_of_evaluate (ht : ∀ c ∈ withoutBlanks t, isInfixChar c = true)
    (h : evaluate t = .error fault) : fault = .malformed ∨ fault = .divisionByZero ∨
      fault = .emptyExpression ∧ withoutBlanks t = [] := by
  rw [evaluate_of_all ht] at h
  rcases bind_eq_error_iff.mp h with hscan | ⟨tokens, hscan, h⟩
  · exact Or.inl (eq_malformed_of_scan ht hscan)
  split at h
  · rename_i hnil
    cases h
    exact Or.inr (Or.inr ⟨rfl, Token.eq_nil_of_scan (hnil ▸ hscan)⟩)
  rcases bind_eq_error_iff.mp h with horder | ⟨postfixed, -, hvalue⟩
  · exact Or.inl (eq_malformed_of_postfixOrder horder)
  · exact (fault_of_valueOver hvalue).imp_right Or.inl

/-- Evaluation of the characters of expressions does not fail for one of them. -/
theorem isForeign_of_evaluate (ht : ∀ c ∈ t, isInfixChar c = true)
    (h : evaluate t = .error fault) : fault.isForeign = false := by
  have hkept : ∀ c ∈ withoutBlanks t, isInfixChar c = true :=
    fun c hc => ht c (List.mem_filter.mp hc).1
  rcases fault_of_evaluate hkept h with rfl | rfl | ⟨rfl, -⟩ <;> rfl

/-- **With a foreign character** evaluation is refused for the first one. -/
theorem exists_evaluate_eq_invalidCharacter {c : Char} (hmem : c ∈ t)
    (hblank : Text.isBlank c = false) (hc : isInfixChar c = false) :
    ∃ found, evaluate t = .error (.invalidCharacter found) := by
  have hkept : c ∈ withoutBlanks t := List.mem_filter.mpr ⟨hmem, by rw [hblank]; rfl⟩
  have hfind : ((withoutBlanks t).find? fun d => !isInfixChar d).isSome = true :=
    List.find?_isSome.mpr ⟨c, hkept, by rw [hc]; rfl⟩
  obtain ⟨found, hfound⟩ := Option.isSome_iff_exists.mp hfind
  refine ⟨found, ?_⟩
  rw [evaluate_eq, checkCharacters, hfound]
  rfl

end Keypad
