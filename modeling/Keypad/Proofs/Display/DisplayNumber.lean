import Keypad.Proofs.Display.Scaling
import Keypad.Proofs.Display.Written

/-!
# Numbers on the display

A finite value is written as a number in digits, or with an exponent, and never as a word.

## Main definitions

* `DisplayNumber`, with its `text`; `ofDigit`, `zero`

## Main results

* `exists_displayNumber`: a finite value without an exponent is written as such a number
* `isInfixChar_of_mem_write`: the characters of a written value
* `exists_eraseSeparators_write_eq`: the first of them, behind the sign, is a digit
-/

namespace Keypad

/-! ## Numbers in digits -/

theorem isInfixChar_of_mem_signText {negative : Bool} {c : Char} (h : c ∈ signText negative) :
    isInfixChar c = true := by
  cases negative with
  | true =>
    rw [List.mem_singleton.mp h]
    decide
  | false => cases h

/-- A number as it stands on the display without separators: digits behind an optional sign, and
possibly a point with further digits behind it. -/
structure DisplayNumber where
  negative : Bool
  /-- The digits before the point. -/
  whole : Text
  /-- The digits behind the point, if there is one. -/
  places? : Option Text
  whole_ne_nil : whole ≠ []
  whole_digits : ∀ c ∈ whole, c.isDigit = true
  places_digits : ∀ c ∈ places?.getD [], c.isDigit = true

namespace DisplayNumber

/-- The characters behind the sign. -/
def unsigned (n : DisplayNumber) : Text :=
  n.whole ++
    match n.places? with
    | none => []
    | some places => '.' :: places

/-- The characters of a number. -/
def text (n : DisplayNumber) : Text := signText n.negative ++ n.unsigned

theorem isDigit_of_mem_nil : ∀ c ∈ ([] : Text), c.isDigit = true :=
  fun _ hc => absurd hc List.not_mem_nil

theorem singleton_ne_nil (d : Char) : ([d] : Text) ≠ [] := List.cons_ne_nil d []

theorem isDigit_of_mem_singleton {d : Char} (hd : d.isDigit = true) :
    ∀ c ∈ [d], c.isDigit = true :=
  fun _ hc => List.mem_singleton.mp hc ▸ hd

/-- The number of one digit. -/
def ofDigit (d : Char) (hd : d.isDigit = true) : DisplayNumber where
  negative := false
  whole := [d]
  places? := none
  whole_ne_nil := singleton_ne_nil d
  whole_digits := isDigit_of_mem_singleton hd
  places_digits := isDigit_of_mem_nil

theorem text_ofDigit {d : Char} (hd : d.isDigit = true) : (ofDigit d hd).text = [d] := rfl

/-- The number zero. -/
def zero : DisplayNumber := ofDigit '0' rfl

theorem text_zero : zero.text = ['0'] := rfl

theorem exists_text_whole {whole : Text} (hne : whole ≠ [])
    (hwhole : ∀ c ∈ whole, c.isDigit = true) (negative : Bool) :
    ∃ n : DisplayNumber, n.text = signText negative ++ whole := by
  refine ⟨⟨negative, whole, none, hne, hwhole, isDigit_of_mem_nil⟩, ?_⟩
  rw [text, unsigned, List.append_nil]

theorem exists_text_places {whole places : Text} (hne : whole ≠ [])
    (hwhole : ∀ c ∈ whole, c.isDigit = true) (hplaces : ∀ c ∈ places, c.isDigit = true)
    (negative : Bool) :
    ∃ n : DisplayNumber, n.text = signText negative ++ (whole ++ '.' :: places) :=
  ⟨⟨negative, whole, some places, hne, hwhole, hplaces⟩, rfl⟩

theorem isNumeralChar_of_mem_unsigned (n : DisplayNumber) :
    ∀ c ∈ n.unsigned, isNumeralChar c = true := by
  intro c hc
  have hplaces := n.places_digits
  rw [unsigned, List.mem_append] at hc
  rcases hc with hc | hc
  · exact isNumeralChar_of_isDigit (n.whole_digits c hc)
  · cases hp : n.places? with
    | none =>
      rw [hp] at hc
      cases hc
    | some places =>
      rw [hp] at hc hplaces
      rcases List.mem_cons.mp hc with rfl | hc
      · rfl
      · exact isNumeralChar_of_isDigit (hplaces c hc)

theorem isInfixChar_of_mem_text (n : DisplayNumber) : ∀ c ∈ n.text, isInfixChar c = true := by
  intro c hc
  rcases List.mem_append.mp hc with hc | hc
  · exact isInfixChar_of_mem_signText hc
  · simp [isInfixChar, n.isNumeralChar_of_mem_unsigned c hc]

/-- Behind its sign a number begins with a digit. -/
theorem exists_unsigned_eq_cons (n : DisplayNumber) :
    ∃ d rest, n.unsigned = d :: rest ∧ d.isDigit = true := by
  obtain ⟨d, rest, hwhole⟩ := List.exists_cons_of_ne_nil n.whole_ne_nil
  have hd := n.whole_digits d (by simp [hwhole])
  exact ⟨d, _, by rw [unsigned, hwhole, List.cons_append], hd⟩

theorem exists_dropZeroSign_text (n : DisplayNumber) :
    ∃ m : DisplayNumber, dropZeroSign n.text = m.text := by
  unfold dropZeroSign
  split
  · exact ⟨zero, text_zero.symm⟩
  · exact ⟨n, rfl⟩

end DisplayNumber

/-! ## Written values -/

/-- **A finite value in digits**: what trimming leaves of it is a number. -/
theorem exists_dropFractionZeros (negative : Bool) (places units : Nat) :
    ∃ n : DisplayNumber,
      dropFractionZeros (signText negative ++ placePoint places units) = n.text := by
  rcases Nat.eq_zero_or_pos places with rfl | hpos
  · have hdigits : ∀ c ∈ digitsOf units, c.isDigit = true := fun c => isDigit_of_mem_digitsOf
    obtain ⟨n, hn⟩ : ∃ n : DisplayNumber, n.text = signText negative ++ digitsOf units :=
      DisplayNumber.exists_text_whole Nat.toDigits_ne_nil hdigits negative
    rw [dropFractionZeros_of_no_places, ← hn]
    exact n.exists_dropZeroSign_text
  · -- of the places the zeros at the end are dropped, and with the last place the point
    obtain ⟨whole, fraction, heq, hwhole, hw, hf, -, -⟩ := placePoint_eq hpos units
    obtain ⟨kept, dropped, hkept, htrim⟩ := dropFractionZeros_point hwhole hw hf negative
    have hk : ∀ c ∈ kept, c.isDigit = true := fun c hc =>
      hf c (by rw [hkept]; exact List.mem_append_left _ hc)
    rw [heq, htrim]
    by_cases hnil : kept = []
    · obtain ⟨n, hn⟩ := DisplayNumber.exists_text_whole hwhole hw negative
      rw [if_pos hnil, ← hn]
      exact n.exists_dropZeroSign_text
    · obtain ⟨n, hn⟩ := DisplayNumber.exists_text_places hwhole hw hk negative
      rw [if_neg hnil, ← hn]
      exact n.exists_dropZeroSign_text

variable {style : Style} {x : Binary64}

theorem exists_displayNumber (hx : x.isFinite = true) :
    ∃ n : DisplayNumber, style.literal x = n.text := by
  have hfinite := Binary64.isFinite_roundTo style.places hx
  unfold Style.literal
  generalize x.roundTo style.places = rounded at hfinite
  cases rounded with
  | nan => cases hfinite
  | infinite negative => cases hfinite
  | finite negative ordinal => exact exists_dropFractionZeros negative _ _

/-- A finite value with an exponent begins as a number does. -/
theorem exists_scientific_eq (places : Nat) (hx : x.isFinite = true) :
    ∃ negative units e, x.scientific places =
      signText negative ++ placePoint places units ++ exponentText e := by
  cases x with
  | nan => cases hx
  | infinite negative => cases hx
  | finite negative ordinal =>
    unfold Binary64.scientific
    dsimp only
    split
    · exact ⟨_, _, _, rfl⟩
    split
    · exact ⟨_, _, _, rfl⟩
    · exact ⟨_, _, _, rfl⟩

theorem exists_placePoint_eq_cons (places units : Nat) :
    ∃ d rest, placePoint places units = d :: rest ∧ d.isDigit = true := by
  obtain ⟨d, rest, hdigits⟩ : ∃ d rest, digitsOf (units / 10 ^ places) = d :: rest :=
    List.exists_cons_of_ne_nil Nat.toDigits_ne_nil
  have hd : d.isDigit = true := isDigit_of_mem_digitsOf (by rw [hdigits]; exact List.mem_cons_self)
  unfold placePoint
  split
  · rename_i hzero
    rw [hzero, Nat.pow_zero, Nat.div_one] at hdigits
    exact ⟨d, rest, hdigits, hd⟩
  · exact ⟨d, _, by rw [hdigits, List.cons_append], hd⟩

/-- **How finite values are written**: as a number, or with an exponent. -/
theorem eraseSeparators_write_cases (style : Style) (hx : x.isFinite = true) :
    (∃ n : DisplayNumber, eraseSeparators (style.write x) = n.text) ∨
      ∃ negative units e, eraseSeparators (style.write x) =
        signText negative ++ placePoint (style.places - 1) units ++ exponentText e := by
  rw [eraseSeparators_write]
  rcases write_cases style x with hwide | hliteral
  · rw [hwide false]
    exact Or.inr (exists_scientific_eq _ (Binary64.isFinite_roundTo _ hx))
  · rw [hliteral false]
    exact Or.inl (exists_displayNumber hx)

theorem isInfixChar_of_mem_exponentText {e : Int} {c : Char} (h : c ∈ exponentText e) :
    isInfixChar c = true ∨ c = 'e' := by
  rcases List.mem_cons.mp h with rfl | h
  · exact Or.inr rfl
  rcases List.mem_cons.mp h with rfl | h
  · left
    split <;> decide
  · exact Or.inl (isInfixChar_of_isDigit (isDigit_of_mem_digitsOf h))

/-- **The characters of a written value**: those of expressions, separators and the letter of an
exponent. -/
theorem isInfixChar_of_mem_write {c : Char} (hx : x.isFinite = true) (h : c ∈ style.write x) :
    isInfixChar c = true ∨ c = separator ∨ c = 'e' := by
  by_cases hc : c = separator
  · exact Or.inr (Or.inl hc)
  have h : c ∈ eraseSeparators (style.write x) := by
    simpa [eraseSeparators, hc] using h
  rcases eraseSeparators_write_cases style hx with ⟨n, hn⟩ | ⟨negative, units, e, he⟩
  · rw [hn] at h
    exact Or.inl (n.isInfixChar_of_mem_text c h)
  · rw [he] at h
    rcases List.mem_append.mp h with h | h
    · rcases List.mem_append.mp h with h | h
      · exact Or.inl (isInfixChar_of_mem_signText h)
      · exact Or.inl (isInfixChar_of_isNumeralChar (isNumeralChar_of_mem_placePoint h))
    · exact (isInfixChar_of_mem_exponentText h).imp_right Or.inr

/-- A written value begins with a digit, behind its sign. -/
theorem exists_eraseSeparators_write_eq (style : Style) (hx : x.isFinite = true) :
    ∃ negative d rest, eraseSeparators (style.write x) = signText negative ++ d :: rest ∧
      d.isDigit = true := by
  rcases eraseSeparators_write_cases style hx with ⟨n, hn⟩ | ⟨negative, units, e, he⟩
  · obtain ⟨d, rest, hcons, hd⟩ := n.exists_unsigned_eq_cons
    exact ⟨n.negative, d, rest, by rw [hn, DisplayNumber.text, hcons], hd⟩
  · obtain ⟨d, rest, hcons, hd⟩ := exists_placePoint_eq_cons (style.places - 1) units
    exact ⟨negative, d, rest ++ exponentText e, by rw [he, hcons]; simp, hd⟩

end Keypad
