import Keypad.Expression.Infix
import Mathlib.Data.List.TakeWhile

/-!
# Which literals are read

A run of digits and points is read as a number exactly if it is a literal of the grammar, with or
without a sign in front.

## Main results

* `isInfixChar_cases`: the characters of expressions
* `decimal?_digits`, `decimal?_point`: the decimal number that digits denote
* `isSome_read?_signText`: a run of digits and points is read if and only if it is a literal
-/

namespace Keypad

theorem isNumeralChar_of_isDigit {c : Char} (h : c.isDigit = true) : isNumeralChar c = true := by
  simp [isNumeralChar, h]

theorem isDigit_of_isNumeralChar {c : Char} (h : isNumeralChar c = true) (hc : c ≠ '.') :
    c.isDigit = true := by
  simpa [isNumeralChar, hc] using h

theorem toUpper_of_isNumeralChar {c : Char} (h : isNumeralChar c = true) : c.toUpper = c := by
  rcases eq_or_ne c '.' with rfl | hc
  · rfl
  · have hd := isDigit_of_isNumeralChar h hc
    simp only [Char.isDigit, Bool.and_eq_true, decide_eq_true_eq, ge_iff_le] at hd
    refine dif_neg fun hl => absurd (Nat.le_trans ?_ hd.2) (by decide : ¬ (97 : Nat) ≤ 57)
    exact hl.1

theorem isBlank_of_isNumeralChar {c : Char} (h : isNumeralChar c = true) :
    Text.isBlank c = false := by
  rcases eq_or_ne c '.' with rfl | hpoint
  · decide
  · have hd := isDigit_of_isNumeralChar h hpoint
    simp only [Char.isDigit, Bool.and_eq_true, decide_eq_true_eq, ge_iff_le] at hd
    have hlow : 48 ≤ c.toNat := hd.1
    have hhigh : c.toNat ≤ 57 := hd.2
    simp [Text.isBlank]
    omega

/-! ## The characters of expressions -/

theorem isInfixChar_of_isNumeralChar {c : Char} (h : isNumeralChar c = true) :
    isInfixChar c = true := by
  simp [isInfixChar, h]

/-- A character of an expression is a digit, the point, an operator or a parenthesis. -/
theorem isInfixChar_cases {c : Char} (h : isInfixChar c = true) :
    c.isDigit = true ∨ c = '.' ∨ (∃ op : Operator, c = op.symbol) ∨ c = '(' ∨ c = ')' := by
  simp only [isInfixChar, isNumeralChar, Bool.or_eq_true, beq_iff_eq] at h
  rcases h with (((hdigit | hpoint) | hop) | hopening) | hclosing
  · exact Or.inl hdigit
  · exact Or.inr (Or.inl hpoint)
  · obtain ⟨op, hop⟩ := Option.isSome_iff_exists.mp hop
    exact Or.inr (Or.inr (Or.inl ⟨op, (Operator.symbol_of_ofSymbol? hop).symm⟩))
  · exact Or.inr (Or.inr (Or.inr (Or.inl hopening)))
  · exact Or.inr (Or.inr (Or.inr (Or.inr hclosing)))

theorem toUpper_of_isInfixChar {c : Char} (h : isInfixChar c = true) : c.toUpper = c := by
  rcases isInfixChar_cases h with hdigit | rfl | ⟨op, rfl⟩ | rfl | rfl
  · exact toUpper_of_isNumeralChar (isNumeralChar_of_isDigit hdigit)
  · rfl
  · cases op <;> rfl
  · rfl
  · rfl

theorem isBlank_of_isInfixChar {c : Char} (h : isInfixChar c = true) :
    Text.isBlank c = false := by
  rcases isInfixChar_cases h with hdigit | rfl | ⟨op, rfl⟩ | rfl | rfl
  · exact isBlank_of_isNumeralChar (isNumeralChar_of_isDigit hdigit)
  · decide
  · cases op <;> decide
  · decide
  · decide

/-- What begins with a character of expressions is no word in letters. -/
theorem sameLetters_cons_of_isInfixChar {c first : Char} (hc : isInfixChar c = true)
    (hfirst : isInfixChar first.toUpper = false) (t rest : Text) :
    Text.sameLetters (c :: t) (first :: rest) = false := by
  refine beq_false_of_ne fun heq => ?_
  obtain ⟨hhead, -⟩ := List.cons.inj heq
  rw [toUpper_of_isInfixChar hc] at hhead
  rw [hhead, hfirst] at hc
  exact Bool.false_ne_true hc

namespace Numeral

variable {t whole places : Text} {negative : Bool}

/-- A text that begins with neither sign is what stands behind the sign put in front of it. -/
theorem splitSign_signText_cons {c : Char} (hminus : c ≠ '-') (hplus : c ≠ '+') (negative : Bool)
    (rest : Text) : splitSign (signText negative ++ c :: rest) = (negative, c :: rest) := by
  cases negative with
  | true => rfl
  | false =>
    show splitSign (c :: rest) = (false, c :: rest)
    unfold splitSign
    split
    · rename_i heq
      exact absurd (List.cons.inj heq).1 hminus
    · rename_i heq
      exact absurd (List.cons.inj heq).1 hplus
    · rfl

theorem splitSign_signText (h : ∀ c ∈ t, isNumeralChar c = true) (negative : Bool) :
    splitSign (signText negative ++ t) = (negative, t) := by
  cases t with
  | nil => cases negative <;> rfl
  | cons c t =>
    have hc := h c (by simp)
    refine splitSign_signText_cons ?_ ?_ negative t
    · rintro rfl
      exact absurd hc (by decide)
    · rintro rfl
      exact absurd hc (by decide)

/-- What begins with a character of expressions behind its sign is read as a decimal number: the
words for infinity and not-a-number begin with a letter. -/
theorem read?_of_splitSign {unsigned : Text} (hsplit : splitSign t = (negative, unsigned))
    (hfirst : ∀ c ∈ unsigned.head?, isInfixChar c = true) :
    read? t = (decimal? negative unsigned).map Decimal.toBinary64 := by
  have hword : ∀ {first : Char} (rest : Text), isInfixChar first.toUpper = false →
      Text.sameLetters unsigned (first :: rest) = false := by
    intro first rest hletter
    cases unsigned with
    | nil => rfl
    | cons c u => exact sameLetters_cons_of_isInfixChar (hfirst c rfl) hletter u rest
  have hinf : Text.sameLetters unsigned "inf".toList = false := hword _ (by decide)
  have hinfinity : Text.sameLetters unsigned "infinity".toList = false := hword _ (by decide)
  have hnan : Text.sameLetters unsigned "nan".toList = false := hword _ (by decide)
  unfold read?
  rw [hsplit]
  simp only [hinf, hinfinity, hnan, Bool.or_self, Bool.false_eq_true, if_false]

/-- A run of digits and points is read as the decimal number it denotes. -/
theorem read?_signText (h : ∀ c ∈ t, isNumeralChar c = true) (negative : Bool) :
    read? (signText negative ++ t) = (decimal? negative t).map Decimal.toBinary64 :=
  read?_of_splitSign (splitSign_signText h negative) fun c hc =>
    isInfixChar_of_isNumeralChar (h c (List.mem_of_mem_head? hc))

/-! ## The decimal number of a run -/

theorem decimal?_digits (hne : whole ≠ []) (hw : ∀ c ∈ whole, c.isDigit = true) :
    decimal? negative whole = some ⟨negative, wholeOf whole, 0⟩ := by
  have hdrop : whole.dropWhile Char.isDigit = [] := List.dropWhile_eq_nil_iff.mpr hw
  have htake : whole.takeWhile Char.isDigit = whole := List.takeWhile_eq_self_iff.mpr hw
  simp [decimal?, hdrop, htake, fraction, exponent?, hne]

theorem decimal?_append_point (hw : ∀ c ∈ whole, c.isDigit = true) (rest : Text) :
    decimal? negative (whole ++ '.' :: rest) =
      if whole.isEmpty && (rest.takeWhile Char.isDigit).isEmpty then none
      else (exponent? (rest.dropWhile Char.isDigit)).map fun e =>
        ⟨negative, wholeOf (whole ++ rest.takeWhile Char.isDigit),
          e - (rest.takeWhile Char.isDigit).length⟩ := by
  have hdrop : (whole ++ '.' :: rest).dropWhile Char.isDigit = '.' :: rest := by
    rw [List.dropWhile_append_of_pos hw]
    rfl
  have htake : (whole ++ '.' :: rest).takeWhile Char.isDigit = whole := by
    rw [List.takeWhile_append_of_pos hw]
    simp
  simp only [decimal?, hdrop, htake, fraction]

theorem decimal?_point (hne : whole ≠ [] ∨ places ≠ []) (hw : ∀ c ∈ whole, c.isDigit = true)
    (hp : ∀ c ∈ places, c.isDigit = true) :
    decimal? negative (whole ++ '.' :: places) =
      some ⟨negative, wholeOf (whole ++ places), -places.length⟩ := by
  have hdrop : places.dropWhile Char.isDigit = [] := List.dropWhile_eq_nil_iff.mpr hp
  have htake : places.takeWhile Char.isDigit = places := List.takeWhile_eq_self_iff.mpr hp
  have hsome : ¬ (whole.isEmpty && places.isEmpty) = true := by
    simpa [List.isEmpty_iff, imp_iff_not_or] using hne
  rw [decimal?_append_point hw, htake, hdrop, if_neg hsome]
  simp [exponent?]

/-- A run of digits and points is all digits, or splits at its first point. -/
theorem digits_or_point (h : ∀ c ∈ t, isNumeralChar c = true) :
    (∀ c ∈ t, c.isDigit = true) ∨
      ∃ whole rest, t = whole ++ '.' :: rest ∧ ∀ c ∈ whole, c.isDigit = true := by
  have hsplit := List.takeWhile_append_dropWhile (p := Char.isDigit) (l := t)
  cases hdrop : t.dropWhile Char.isDigit with
  | nil => exact Or.inl (List.dropWhile_eq_nil_iff.mp hdrop)
  | cons c rest =>
    rw [hdrop] at hsplit
    have hc : isNumeralChar c = true := h c (by rw [← hsplit]; simp)
    have hnot : ¬ c.isDigit = true := by
      have := List.head?_dropWhile_not Char.isDigit t
      simpa [hdrop] using this
    have hpoint : c = '.' := by_contra fun hne => hnot (isDigit_of_isNumeralChar hc hne)
    refine Or.inr ⟨t.takeWhile Char.isDigit, rest, ?_, fun d hd => ?_⟩
    · rw [← hpoint, hsplit]
    · exact List.mem_takeWhile_imp hd

theorem count_point_of_digits (h : ∀ c ∈ t, c.isDigit = true) : t.count '.' = 0 :=
  List.count_eq_zero.mpr fun hmem => absurd (h '.' hmem) (by decide)

theorem any_isDigit_of_digits (h : ∀ c ∈ t, c.isDigit = true) :
    t.any Char.isDigit = !t.isEmpty := by
  cases t with
  | nil => rfl
  | cons c t => simp [h c (by simp)]

/-- A run of digits and points denotes a number if and only if it is a literal. -/
theorem isSome_decimal? (h : ∀ c ∈ t, isNumeralChar c = true) :
    (decimal? negative t).isSome = isLiteral t := by
  have hall : t.all isNumeralChar = true := List.all_eq_true.mpr h
  rw [isLiteral_eq, hall, Bool.true_and]
  rcases digits_or_point h with hd | ⟨whole, rest, rfl, hw⟩
  · -- no point
    rw [count_point_of_digits hd, any_isDigit_of_digits hd]
    by_cases hne : t = []
    · subst hne
      rfl
    · rw [decimal?_digits hne hd]
      simp [hne]
  · have hrest : ∀ c ∈ rest, isNumeralChar c = true := fun c hc => h c (by simp [hc])
    rcases digits_or_point hrest with hd | ⟨places, beyond, rfl, hp⟩
    · -- one point
      rw [List.count_append, count_point_of_digits hw, List.count_cons_self,
        count_point_of_digits hd, List.any_append, any_isDigit_of_digits hw, List.any_cons,
        any_isDigit_of_digits hd]
      by_cases hne : whole ≠ [] ∨ rest ≠ []
      · rw [decimal?_point hne hw hd]
        rcases hne with hne | hne <;> simp [hne]
      · obtain ⟨rfl, rfl⟩ : whole = [] ∧ rest = [] := by simpa [not_or] using hne
        rfl
    · -- a second point ends the digits and begins no exponent
      have hcount : ¬ (whole ++ '.' :: (places ++ '.' :: beyond)).count '.' ≤ 1 := by
        simp only [List.count_append, List.count_cons_self]
        omega
      rw [decimal?_append_point hw, List.dropWhile_append_of_pos hp, decide_eq_false hcount]
      simp [exponent?]

/-- **What is read**: a run of digits and points, with or without a minus sign, is a number if and
only if it is a literal. -/
theorem isSome_read?_signText (h : ∀ c ∈ t, isNumeralChar c = true) (negative : Bool) :
    (read? (signText negative ++ t)).isSome = isLiteral t := by
  rw [read?_signText h, Option.isSome_map, isSome_decimal? h]

end Numeral

theorem isNumeralChar_of_isLiteral {t : Text} (h : isLiteral t = true) :
    ∀ c ∈ t, isNumeralChar c = true := by
  simp only [isLiteral_eq, Bool.and_eq_true] at h
  exact List.all_eq_true.mp h.1.1

/-- A literal is read, with or without a minus sign. -/
theorem exists_read?_of_isLiteral {t : Text} (h : isLiteral t = true) (negative : Bool) :
    ∃ x, Numeral.read? (signText negative ++ t) = some x := by
  refine Option.isSome_iff_exists.mp ?_
  rw [Numeral.isSome_read?_signText (isNumeralChar_of_isLiteral h), h]

end Keypad
