import Keypad.Text.Basic

/-!
# Separators in the integer part

## Main definitions

* `separator`, `eraseSeparators`
* `groupDigits`: a separator before every group of three from the right
* `groupInteger`: the integer part of a literal grouped

## Main results

* `eraseSeparators_groupInteger`: grouping only inserts separators
-/

namespace Keypad

/-- The character between groups of three integer digits. -/
def separator : Char := ','

/-- A text without its separators. -/
def eraseSeparators (t : Text) : Text := t.filter fun c => c != separator

/-- Inserts separators; `length` is the length of the whole run and `index` the place of its
first character here.  A separator goes where the remaining length is a multiple of three. -/
def groupDigits (length : Nat) : (index : Nat) → Text → Text
  | _, [] => []
  | index, c :: rest =>
    if 0 < index ∧ (length - index) % 3 = 0 then
      separator :: c :: groupDigits length (index + 1) rest
    else c :: groupDigits length (index + 1) rest

/-- The integer part of a literal grouped, its sign and fraction untouched.  The length of the
integer part is counted in bytes, which for digits is their number. -/
def groupInteger (literal : Text) : Text :=
  match literal with
  | '-' :: unsigned => '-' :: groupUnsigned unsigned
  | unsigned => groupUnsigned unsigned
where
  /-- A literal without a sign. -/
  groupUnsigned (unsigned : Text) : Text :=
    match Text.splitAt? '.' unsigned with
    | some (whole, places) => groupDigits (Text.byteCount whole) 0 whole ++ '.' :: places
    | none => groupDigits (Text.byteCount unsigned) 0 unsigned

@[simp] theorem eraseSeparators_append (s t : Text) :
    eraseSeparators (s ++ t) = eraseSeparators s ++ eraseSeparators t := by
  simp [eraseSeparators]

theorem eraseSeparators_cons_of_ne {c : Char} (h : c ≠ separator) (t : Text) :
    eraseSeparators (c :: t) = c :: eraseSeparators t := by
  simp [eraseSeparators, h]

theorem eraseSeparators_groupDigits (length index : Nat) (t : Text) :
    eraseSeparators (groupDigits length index t) = eraseSeparators t := by
  induction t generalizing index with
  | nil => rfl
  | cons c rest ih =>
    unfold groupDigits
    split
    · simp only [eraseSeparators, List.filter_cons, bne_self_eq_false, Bool.false_eq_true,
        if_false] at ih ⊢
      rw [ih]
    · simp only [eraseSeparators, List.filter_cons] at ih ⊢
      rw [ih]

/-- **Grouping only inserts separators.** -/
theorem eraseSeparators_groupInteger (literal : Text) :
    eraseSeparators (groupInteger literal) = eraseSeparators literal := by
  have unsigned : ∀ t : Text,
      eraseSeparators (groupInteger.groupUnsigned t) = eraseSeparators t := by
    intro t
    unfold groupInteger.groupUnsigned
    split
    · rename_i whole places h
      obtain ⟨rfl, -⟩ := Text.append_of_splitAt? _ _ _ _ h
      rw [eraseSeparators_append, eraseSeparators_append, eraseSeparators_groupDigits]
    · exact eraseSeparators_groupDigits _ _ _
  unfold groupInteger
  split
  · rw [eraseSeparators_cons_of_ne (by decide), eraseSeparators_cons_of_ne (by decide), unsigned]
  · exact unsigned _

end Keypad
