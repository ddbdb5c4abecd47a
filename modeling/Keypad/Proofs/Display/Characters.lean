import Keypad.Display.Style
import Keypad.Proofs.Expression.Literal
import Mathlib.Data.List.Infix

/-!
# The characters of written values

A value is written in digits, with at most a sign in front and a point between them; an exponent
brings a letter and a second sign.  Grouping adds separators and nothing else.

## Main definitions

* `isWrittenChar`: the characters that values are written in without grouping

## Main results

* `isDigit_of_mem_digitsOf`, `isNumeralChar_of_mem_placePoint`: the digits of a value
* `ne_of_kind`, `ne_separator_of_isInfixChar`: a character of a kind is none of the others, so
  expressions have no separators
* `dropFractionZeros_cases`: trimming keeps a beginning of the literal
* `isWrittenChar_of_mem_fixed`, `isWrittenChar_of_mem_scientific`: both ways to write a value
* `mem_groupInteger`: grouping adds separators only
-/

namespace Keypad

variable {t : Text} {c : Char}

/-! ## Digits, signs and points -/

/-- A character of one kind, such as a digit, is none of the other characters. -/
theorem ne_of_kind {kind : Char → Bool} {other : Char} (hc : kind c = true)
    (hother : kind other = false) : c ≠ other := by
  rintro rfl
  rw [hother] at hc
  cases hc

theorem isDigit_of_mem_digitsOf {n : Nat} (h : c ∈ digitsOf n) : c.isDigit = true :=
  Nat.isDigit_of_mem_toDigits (by decide) (by decide) h

theorem isDigit_of_mem_padStart {width : Nat} {digits : Text}
    (h : ∀ d ∈ digits, d.isDigit = true) : ∀ d ∈ padStart width digits, d.isDigit = true := by
  intro d hd
  rcases List.mem_append.mp hd with hd | hd
  · rw [List.eq_of_mem_replicate hd]
    rfl
  · exact h d hd

theorem isNumeralChar_of_mem_placePoint {places n : Nat} (h : c ∈ placePoint places n) :
    isNumeralChar c = true := by
  unfold placePoint at h
  split at h
  · exact isNumeralChar_of_isDigit (isDigit_of_mem_digitsOf h)
  · rcases List.mem_append.mp h with h | h
    · exact isNumeralChar_of_isDigit (isDigit_of_mem_digitsOf h)
    · rcases List.mem_cons.mp h with rfl | h
      · rfl
      · exact isNumeralChar_of_isDigit
          (isDigit_of_mem_padStart (fun _ => isDigit_of_mem_digitsOf) c h)

theorem isInfixChar_of_isDigit (h : c.isDigit = true) : isInfixChar c = true := by
  simp [isInfixChar, isNumeralChar, h]

/-- Nothing that an expression is written in is a separator. -/
theorem ne_separator_of_isInfixChar (h : isInfixChar c = true) : c ≠ separator :=
  ne_of_kind h (by decide)

/-- The characters that values are written in, the words for those that are not finite
included. -/
def isWrittenChar (c : Char) : Bool := isNumeralChar c || "-+eNainf".toList.contains c

theorem isWrittenChar_of_isNumeralChar (h : isNumeralChar c = true) : isWrittenChar c = true := by
  simp [isWrittenChar, h]

theorem isBlank_of_isWrittenChar (h : isWrittenChar c = true) : Text.isBlank c = false := by
  rcases Bool.or_eq_true _ _ ▸ h with h | h
  · exact isBlank_of_isNumeralChar h
  · have hall : ("-+eNainf".toList.all fun d => !Text.isBlank d) = true := by decide
    simpa using List.all_eq_true.mp hall c (by simpa using h)

theorem ne_separator_of_isWrittenChar (h : isWrittenChar c = true) : c ≠ separator :=
  ne_of_kind h (by decide)

/-- The words for values that are not finite. -/
theorem isWrittenChar_of_mem_word (h : c ∈ "NaN".toList ∨ c ∈ "inf".toList) :
    isWrittenChar c = true := by
  have hnan : "NaN".toList.all isWrittenChar = true := by decide
  have hinf : "inf".toList.all isWrittenChar = true := by decide
  rcases h with h | h
  · exact List.all_eq_true.mp hnan c h
  · exact List.all_eq_true.mp hinf c h

theorem isWrittenChar_of_mem_signText {negative : Bool} (h : c ∈ signText negative) :
    isWrittenChar c = true := by
  cases negative with
  | true => rw [List.mem_singleton.mp h]; decide
  | false => cases h

/-! ## Fixed places -/

theorem isWrittenChar_of_mem_fixed {places : Nat} {x : Binary64} (h : c ∈ x.fixed places) :
    isWrittenChar c = true := by
  cases x with
  | nan => exact isWrittenChar_of_mem_word (Or.inl h)
  | infinite negative =>
    rcases List.mem_append.mp h with h | h
    · exact isWrittenChar_of_mem_signText h
    · exact isWrittenChar_of_mem_word (Or.inr h)
  | finite negative ordinal =>
    rcases List.mem_append.mp h with h | h
    · exact isWrittenChar_of_mem_signText h
    · exact isWrittenChar_of_isNumeralChar (isNumeralChar_of_mem_placePoint h)

/-- A sign stands in front, or nowhere. -/
theorem minus_notMem_tail_fixed (places : Nat) (x : Binary64) : '-' ∉ (x.fixed places).tail := by
  have hsigned : ∀ negative (u : Text), '-' ∉ u → '-' ∉ (signText negative ++ u).tail := by
    intro negative u hu
    cases negative with
    | true => exact hu
    | false => exact fun hmem => hu (List.mem_of_mem_tail hmem)
  cases x with
  | nan => exact (by decide : '-' ∉ "aN".toList)
  | infinite negative => exact hsigned negative _ (by decide)
  | finite negative ordinal =>
    refine hsigned negative _ fun hmem => ?_
    exact absurd (isNumeralChar_of_mem_placePoint hmem) (by decide)

theorem trimEndBy_begins (drop : Char → Bool) (t : Text) : Text.trimEndBy drop t <+: t := by
  have hsuffix : t.reverse.dropWhile drop <:+ t.reverse := List.dropWhile_suffix drop
  simpa [Text.trimEndBy] using List.reverse_prefix.mpr hsuffix

/-- Trimming leaves a beginning of the literal, or zero. -/
theorem dropFractionZeros_cases (t : Text) :
    dropFractionZeros t = ['0'] ∨ dropFractionZeros t <+: t := by
  have hzero : ∀ u : Text, dropZeroSign u = ['0'] ∨ dropZeroSign u = u := by
    intro u
    unfold dropZeroSign
    split
    · exact Or.inl rfl
    · exact Or.inr rfl
  unfold dropFractionZeros
  split
  · rcases hzero (Text.trimEndBy (· == '.') (Text.trimEndBy (· == '0') t)) with h | h
    · exact Or.inl h
    · rw [h]
      exact Or.inr ((trimEndBy_begins _ _).trans (trimEndBy_begins _ _))
  · rcases hzero t with h | h
    · exact Or.inl h
    · rw [h]
      exact Or.inr List.prefix_rfl

/-- What trimming leaves has the characters of the literal. -/
theorem isWrittenChar_of_mem_dropFractionZeros (ht : ∀ d ∈ t, isWrittenChar d = true)
    (h : c ∈ dropFractionZeros t) : isWrittenChar c = true := by
  rcases dropFractionZeros_cases t with hzero | hbegins
  · rw [hzero] at h
    rw [List.mem_singleton.mp h]
    decide
  · exact ht c (hbegins.subset h)

theorem minus_notMem_tail_dropFractionZeros (ht : '-' ∉ t.tail) :
    '-' ∉ (dropFractionZeros t).tail := by
  rcases dropFractionZeros_cases t with hzero | hbegins
  · rw [hzero]
    simp
  · rw [← List.drop_one] at ht ⊢
    exact fun hmem => ht ((List.IsPrefix.drop hbegins 1).subset hmem)

/-! ## Exponents -/

theorem isWrittenChar_of_mem_scientific {places : Nat} {x : Binary64}
    (h : c ∈ x.scientific places) : isWrittenChar c = true := by
  have hexponent : ∀ e, ∀ d ∈ exponentText e, isWrittenChar d = true := by
    intro e d hd
    rcases List.mem_cons.mp hd with rfl | hd
    · decide
    rcases List.mem_cons.mp hd with rfl | hd
    · split <;> decide
    · exact isWrittenChar_of_isNumeralChar (isNumeralChar_of_isDigit (isDigit_of_mem_digitsOf hd))
  have hmantissa : ∀ negative n e,
      c ∈ signText negative ++ mantissaText places n ++ exponentText e →
        isWrittenChar c = true := by
    intro negative n e hc
    rcases List.mem_append.mp hc with hc | hc
    · rcases List.mem_append.mp hc with hc | hc
      · exact isWrittenChar_of_mem_signText hc
      · exact isWrittenChar_of_isNumeralChar (isNumeralChar_of_mem_placePoint hc)
    · exact hexponent e c hc
  cases x with
  | nan => exact isWrittenChar_of_mem_word (Or.inl h)
  | infinite negative =>
    rcases List.mem_append.mp h with h | h
    · exact isWrittenChar_of_mem_signText h
    · exact isWrittenChar_of_mem_word (Or.inr h)
  | finite negative ordinal =>
    unfold Binary64.scientific at h
    dsimp only at h
    split at h
    · exact hmantissa _ _ _ h
    split at h
    · exact hmantissa _ _ _ h
    · exact hmantissa _ _ _ h

/-! ## Grouping -/

theorem mem_groupDigits {length index : Nat} (h : c ∈ groupDigits length index t) :
    c ∈ t ∨ c = separator := by
  induction t generalizing index with
  | nil => cases h
  | cons d rest ih =>
    unfold groupDigits at h
    split at h
    · rcases List.mem_cons.mp h with rfl | h
      · exact Or.inr rfl
      rcases List.mem_cons.mp h with rfl | h
      · exact Or.inl List.mem_cons_self
      · exact (ih h).imp_left (List.mem_cons_of_mem d)
    · rcases List.mem_cons.mp h with rfl | h
      · exact Or.inl List.mem_cons_self
      · exact (ih h).imp_left (List.mem_cons_of_mem d)

/-- Grouping adds separators and nothing else. -/
theorem mem_groupInteger (h : c ∈ groupInteger t) : c ∈ t ∨ c = separator := by
  have hunsigned : ∀ u : Text, c ∈ groupInteger.groupUnsigned u → c ∈ u ∨ c = separator := by
    intro u hu
    unfold groupInteger.groupUnsigned at hu
    split at hu
    · rename_i whole places hsplit
      obtain ⟨rfl, -⟩ := Text.append_of_splitAt? _ _ _ _ hsplit
      rcases List.mem_append.mp hu with hu | hu
      · exact (mem_groupDigits hu).imp_left fun hwhole => List.mem_append_left _ hwhole
      · exact Or.inl (List.mem_append_right _ hu)
    · exact mem_groupDigits hu
  unfold groupInteger at h
  split at h
  · rcases List.mem_cons.mp h with rfl | h
    · exact Or.inl List.mem_cons_self
    · exact (hunsigned _ h).imp_left (List.mem_cons_of_mem _)
  · exact hunsigned _ h

end Keypad
