import Keypad.Proofs.Expression.Fault
import Keypad.Proofs.Expression.Reordering

/-!
# Which fault an expression ends with

The stages of evaluation come one after the other, so the first that finds a fault decides.  A
foreign character goes before everything else, then a text of blanks.  Parentheses and runs of
digits and points are looked at before anything is computed: a broken one makes the text malformed
even where a division by zero stands before it.

## Main definitions

* `isForeignChar`, `IsFirstForeign`: a character of no expression, and the first one of a text

## Main results

* `find?_withoutBlanks`: the check of the characters looks for the first foreign one
* `evaluate_eq_malformed`: what is looked at before anything is computed
* `evaluate_firstFault`: which fault evaluation ends with
-/

namespace Keypad

variable {source : Text}

/-! ## The first foreign character -/

/-- A character that is no blank and belongs to no expression. -/
def isForeignChar (c : Char) : Bool := !Text.isBlank c && !isInfixChar c

/-- The first foreign character of a text. -/
def IsFirstForeign (source : Text) (found : Char) : Prop :=
  ∃ before after, source = before ++ found :: after ∧ isForeignChar found = true ∧
    ∀ c ∈ before, isForeignChar c = false

theorem find?_isForeignChar_eq_some_iff (source : Text) (found : Char) :
    source.find? isForeignChar = some found ↔ IsFirstForeign source found := by
  rw [List.find?_eq_some_iff_append]
  constructor
  · rintro ⟨hfound, before, after, rfl, hbefore⟩
    exact ⟨before, after, rfl, hfound, fun c hc => by simpa using hbefore c hc⟩
  · rintro ⟨before, after, rfl, hfound, hbefore⟩
    exact ⟨hfound, before, after, rfl, fun c hc => by simpa using hbefore c hc⟩

/-- The check of the characters looks for the first foreign one. -/
theorem find?_withoutBlanks (source : Text) :
    ((withoutBlanks source).find? fun c => !isInfixChar c) = source.find? isForeignChar := by
  have hforeign : (fun c => decide ((!Text.isBlank c) = true ∧ (!isInfixChar c) = true)) =
      isForeignChar := by
    funext c
    simp [isForeignChar]
  rw [withoutBlanks, List.find?_filter, hforeign]

theorem isInfixChar_of_not_isForeignChar (h : ∀ c ∈ source, isForeignChar c = false) :
    ∀ c ∈ withoutBlanks source, isInfixChar c = true := by
  intro c hc
  obtain ⟨hmem, hblank⟩ := List.mem_filter.mp hc
  have hforeign := h c hmem
  rw [isForeignChar, hblank, Bool.true_and] at hforeign
  simpa using hforeign

/-! ## Evaluation -/

theorem evaluate_of_isFirstForeign {found : Char} (h : IsFirstForeign source found) :
    evaluate source = .error (.invalidCharacter found) := by
  rw [evaluate_eq, checkCharacters, find?_withoutBlanks,
    (find?_isForeignChar_eq_some_iff source found).mpr h]
  rfl

/-- A text is refused for a character exactly if that is its first foreign one. -/
theorem evaluate_eq_invalidCharacter_iff (source : Text) (found : Char) :
    evaluate source = .error (.invalidCharacter found) ↔ IsFirstForeign source found := by
  constructor
  · intro h
    cases hfind : source.find? isForeignChar with
    | some other =>
      have hother := (find?_isForeignChar_eq_some_iff source other).mp hfind
      rw [evaluate_of_isFirstForeign hother] at h
      cases h
      exact hother
    | none =>
      have hnone : ∀ c ∈ source, isForeignChar c = false := fun c hc => by
        simpa using List.find?_eq_none.mp hfind c hc
      have hfault := fault_of_evaluate (isInfixChar_of_not_isForeignChar hnone) h
      simp at hfault
  · exact evaluate_of_isFirstForeign

theorem withoutBlanks_eq_nil_iff (source : Text) :
    withoutBlanks source = [] ↔ ∀ c ∈ source, Text.isBlank c = true := by
  simp [withoutBlanks]

/-- A text without foreign characters is empty exactly if it holds nothing but blanks. -/
theorem evaluate_eq_emptyExpression_iff (h : ∀ c ∈ source, isForeignChar c = false) :
    evaluate source = .error .emptyExpression ↔ ∀ c ∈ source, Text.isBlank c = true := by
  rw [← withoutBlanks_eq_nil_iff]
  constructor
  · intro hempty
    have hfault := fault_of_evaluate (isInfixChar_of_not_isForeignChar h) hempty
    simpa using hfault
  · intro hnil
    rw [evaluate_of_all (isInfixChar_of_not_isForeignChar h), hnil, Token.ofText, Token.scan_nil]
    rfl

/-- **What is looked at before anything is computed**: a broken run of digits and points, and
parentheses that are not balanced. -/
theorem evaluate_eq_malformed (h : ∀ c ∈ source, isForeignChar c = false)
    (hbroken : ¬ IsBalanced '(' ')' 0 source ∨ HasBrokenRun (withoutBlanks source)) :
    evaluate source = .error .malformed := by
  have hinfix := isInfixChar_of_not_isForeignChar h
  rw [evaluate_of_all hinfix]
  cases hscan : Token.ofText (withoutBlanks source) with
  | error fault =>
    rw [eq_malformed_of_scan hinfix hscan]
    rfl
  | ok tokens =>
    -- the text is split, so its runs are whole, and the parentheses are those of the tokens
    have hwhole : ¬ HasBrokenRun (withoutBlanks source) := by
      intro hrun
      have := (Token.scan_eq_error_iff hinfix none .malformed).mpr ⟨rfl, hrun⟩
      rw [Token.ofText, this] at hscan
      cases hscan
    have hunbalanced : ¬ IsBalanced .opening .closing 0 tokens := by
      rw [← isBalanced_iff_of_scan hscan, isBalanced_withoutBlanks_iff]
      exact hbroken.resolve_right hwhole
    have hne : tokens ≠ [] := by
      rintro rfl
      exact hunbalanced (isBalanced_nil_iff.mpr rfl)
    change (if tokens = [] then _ else _) = _
    rw [if_neg hne, postfixOrder_of_not_isBalanced hunbalanced]
    rfl

/-- **Which fault evaluation ends with.**  The first foreign character decides if there is one, and
otherwise a text of blanks is empty.  Any other text has a value, is malformed or divides by zero;
and it is malformed, whatever it would compute, if its parentheses are not balanced or if without
its blanks one of its runs of digits and points is broken. -/
theorem evaluate_firstFault (source : Text) :
    (∀ found, evaluate source = .error (.invalidCharacter found) ↔ IsFirstForeign source found) ∧
    ((∀ c ∈ source, isForeignChar c = false) →
      (evaluate source = .error .emptyExpression ↔ ∀ c ∈ source, Text.isBlank c = true) ∧
      (¬ (∀ c ∈ source, Text.isBlank c = true) →
        ((∃ v, evaluate source = .ok v) ∨ evaluate source = .error .malformed ∨
          evaluate source = .error .divisionByZero) ∧
        (¬ IsBalanced '(' ')' 0 source ∨ HasBrokenRun (withoutBlanks source) →
          evaluate source = .error .malformed))) := by
  refine ⟨evaluate_eq_invalidCharacter_iff source, fun h => ⟨evaluate_eq_emptyExpression_iff h,
    fun hsome => ⟨?_, evaluate_eq_malformed h⟩⟩⟩
  cases hvalue : evaluate source with
  | ok v => exact Or.inl ⟨v, rfl⟩
  | error fault =>
    rcases fault_of_evaluate (isInfixChar_of_not_isForeignChar h) hvalue with
      rfl | rfl | ⟨-, hnil⟩
    · exact Or.inr (Or.inl rfl)
    · exact Or.inr (Or.inr rfl)
    · exact absurd ((withoutBlanks_eq_nil_iff source).mp hnil) hsome

/-- A broken run at the end goes before the division by zero at the start. -/
example : evaluate "1/0+.".toList = .error .malformed := by decide +kernel

end Keypad
