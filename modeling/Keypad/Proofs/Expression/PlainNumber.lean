import Keypad.Proofs.Expression.Value

/-!
# Numbers among the expressions

In the characters of expressions there are no letters, so a number written in them has no exponent
and is no word: it is a literal behind its sign.  Without a plus sign in front it is a phrase of
the grammar, and evaluates to the number that it is read as.

## Main results

* `Numeral.isNumeralChar_of_decimal?`: without letters a decimal number is a run of digits and
  points
* `Numeral.exists_eq_signText_of_read?`: what is read without letters is a literal behind its sign
* `evaluate_of_read?`: evaluation agrees with reading
* `evaluate_append_symbol`: so does the evaluation of one operation between two numbers
* `Infix.head?_text_ne_plus`: no phrase begins with a plus sign
-/

namespace Keypad

variable {t : Text}

namespace Numeral

/-- What stands behind the sign of a text, put back behind it. -/
theorem signText_append_splitSign (hplus : t.head? ≠ some '+') :
    signText (splitSign t).1 ++ (splitSign t).2 = t := by
  unfold splitSign
  split
  · rfl
  · exact absurd rfl hplus
  · rfl

/-- An exponent begins with a letter. -/
theorem eq_nil_of_exponent? (ht : ∀ c ∈ t, isInfixChar c = true) {e : Int}
    (he : exponent? t = some e) : t = [] := by
  cases t with
  | nil => rfl
  | cons c rest =>
    have hletter : ¬ (c = 'e' ∨ c = 'E') := by
      rintro (rfl | rfl) <;> exact absurd (ht _ List.mem_cons_self) (by decide)
    simp [exponent?, hletter] at he

/-- **Without letters** a decimal number is a run of digits and points: its digits, possibly a point
with more digits, and no exponent. -/
theorem isNumeralChar_of_decimal? (ht : ∀ c ∈ t, isInfixChar c = true) {negative : Bool}
    {d : Decimal} (hd : decimal? negative t = some d) : ∀ c ∈ t, isNumeralChar c = true := by
  have hsplit := List.takeWhile_append_dropWhile (p := Char.isDigit) (l := t)
  have hrest : ∀ c ∈ t.dropWhile Char.isDigit, isInfixChar c = true :=
    fun c hc => ht c ((List.dropWhile_suffix _).subset hc)
  have hwhole : ∀ c ∈ t.takeWhile Char.isDigit, isNumeralChar c = true :=
    fun c hc => isNumeralChar_of_isDigit (List.mem_takeWhile_imp hc)
  unfold decimal? at hd
  dsimp only at hd
  split at hd
  · cases hd
  obtain ⟨e, he, -⟩ := Option.map_eq_some_iff.mp hd
  -- in front of the point there are digits only, so what follows them is left
  suffices hrun : ∀ c ∈ t.dropWhile Char.isDigit, isNumeralChar c = true by
    intro c hc
    rw [← hsplit] at hc
    exact (List.mem_append.mp hc).elim (hwhole c) (hrun c)
  revert he hrest
  generalize t.dropWhile Char.isDigit = rest
  intro hrest he
  unfold fraction at he
  split at he
  · -- behind the point nothing is left of the digits
    rename_i places
    have hnil : places.dropWhile Char.isDigit = [] := eq_nil_of_exponent?
      (fun c hc => hrest c (List.mem_cons_of_mem _ ((List.dropWhile_suffix _).subset hc))) he
    intro c hc
    rcases List.mem_cons.mp hc with rfl | hc
    · rfl
    · exact isNumeralChar_of_isDigit (List.dropWhile_eq_nil_iff.mp hnil c hc)
  · rw [eq_nil_of_exponent? hrest he]
    exact nofun

/-- **What is read without letters** is a literal behind its sign. -/
theorem exists_eq_signText_of_read? (ht : ∀ c ∈ t, isInfixChar c = true)
    (hplus : t.head? ≠ some '+') {x : Binary64} (hx : read? t = some x) :
    ∃ negative digits, t = signText negative ++ digits ∧ isLiteral digits = true := by
  have hsign := signText_append_splitSign hplus
  have hchars : ∀ c ∈ (splitSign t).2, isInfixChar c = true := by
    intro c hc
    refine ht c ?_
    rw [← hsign]
    exact List.mem_append_right _ hc
  have hread := hx
  rw [read?_of_splitSign rfl fun c hc => hchars c (List.mem_of_mem_head? hc)] at hread
  obtain ⟨d, hd, -⟩ := Option.map_eq_some_iff.mp hread
  have hrun := isNumeralChar_of_decimal? hchars hd
  -- a run that is read is a literal: it has a digit, and at most one point
  refine ⟨_, _, hsign.symm, ?_⟩
  rw [← isSome_read?_signText hrun, hsign, hx]
  rfl

end Numeral

/-- **Evaluation agrees with reading**: a number in the characters of expressions evaluates to the
value that it is read as, unless it has a plus sign, which no phrase begins with. -/
theorem evaluate_of_read? (ht : ∀ c ∈ t, isInfixChar c = true) (hplus : t.head? ≠ some '+')
    {x : Binary64} (hx : Numeral.read? t = some x) : evaluate t = .ok x := by
  obtain ⟨negative, digits, rfl, hliteral⟩ := Numeral.exists_eq_signText_of_read? ht hplus hx
  have hfits : (Infix.literal negative digits).Fits Infix.loosest := hliteral
  calc evaluate (signText negative ++ digits)
      = (Infix.literal negative digits).value := evaluate_text hfits
    _ = .ok x := by rw [Infix.value, hx]

/-- **One operation between numbers** evaluates to what the operator makes of them. -/
theorem evaluate_append_symbol {s : Text} (hs : ∀ c ∈ s, isInfixChar c = true)
    (hsplus : s.head? ≠ some '+') {x : Binary64} (hx : Numeral.read? s = some x)
    (ht : ∀ c ∈ t, isInfixChar c = true) (htplus : t.head? ≠ some '+') {y : Binary64}
    (hy : Numeral.read? t = some y) (op : Operator) :
    evaluate (s ++ op.symbol :: t) = op.apply x y := by
  obtain ⟨negative, digits, rfl, hleft⟩ := Numeral.exists_eq_signText_of_read? hs hsplus hx
  obtain ⟨negative', digits', rfl, hright⟩ := Numeral.exists_eq_signText_of_read? ht htplus hy
  have hfits : (Infix.binary op (.literal negative digits) (.literal negative' digits')).Fits
      Infix.loosest := ⟨by cases op <;> decide, hleft, hright⟩
  have hvalue : ∀ {negative digits z}, Numeral.read? (signText negative ++ digits) = some z →
      (Infix.literal negative digits).value = .ok z := by
    intro negative digits z hz
    rw [Infix.value, hz]
  refine (evaluate_text hfits).trans ?_
  rw [Infix.value_binary, hvalue hx, hvalue hy]
  rfl

namespace Infix

theorem head?_text_append_ne_plus {level : Nat} {phrase : Infix} (h : phrase.Fits level)
    (rest : Text) : (phrase.text ++ rest).head? ≠ some '+' := by
  induction phrase generalizing level rest with
  | literal negative digits =>
    cases negative with
    | true => exact nofun
    | false =>
      cases digits with
      | nil => exact absurd (show isLiteral [] = true from h) (by decide)
      | cons c digits =>
        rintro ⟨⟩
        exact absurd (isNumeralChar_of_isLiteral h '+' List.mem_cons_self) (by decide)
  | group inner _ => exact nofun
  | binary op left right ihl _ =>
    rw [text, List.append_assoc]
    exact ihl h.2.1 _

/-- No phrase begins with a plus sign. -/
theorem head?_text_ne_plus {level : Nat} {phrase : Infix} (h : phrase.Fits level) :
    phrase.text.head? ≠ some '+' := by
  simpa using head?_text_append_ne_plus h []

end Infix

end Keypad
