import Keypad.Proofs.Display.DisplayNumber
import Keypad.Proofs.Display.Threshold
import Keypad.Proofs.Expression.Value

/-!
# Editing a number on the display

A number on the display is read as the value nearest to its digits, whatever their number.  Each key
that edits it leads to another such number: a digit more, a point, another sign, or one character
less.  Without its last character a number is no larger than before; and a number of up to twelve
digits is within the ceiling.

## Main definitions

* `DisplayNumber.value`: the value nearest to the digits
* `DisplayNumber.flip`: the number with the other sign
* `DisplayNumber.IsAtMost`: whether it is no larger than another number

## Main results

* `readDisplay?_text`: what a number on the display is read as
* `exists_text_push`, `exists_text_point`, `exists_text_dropLast`: the number after a key
* `exceedsCeiling_of_digitCount`: numbers of few digits are within the ceiling
-/

namespace Keypad

/-! ## Values of decimal quotients -/

/-- A quotient of less than half a quantum is rounded to zero. -/
theorem ofQuotient_eq_zero {num den : Nat} (h : 2 * num < den) (negative : Bool) :
    Binary64.ofQuotient negative num den = .zero negative := by
  have hquotient : num / den = 0 := Nat.div_eq_of_lt (by omega)
  have hround : roundEven num (den * 2 ^ 0) = 0 := by
    refine roundEven_eq_of_close ?_ ?_ ?_
    · omega
    · omega
    · omega
  have hordinal : nearestOrdinal num den = 0 := by
    unfold nearestOrdinal
    rw [hquotient, Nat.log2_zero, Nat.zero_sub]
    dsimp only
    rw [hround, Nat.zero_mul]
  unfold Binary64.ofQuotient
  simp only [hordinal]
  rfl

/-- A coefficient so far behind the point is less than half a quantum. -/
theorem two_mul_quanta_lt {coefficient length : Nat}
    (h : (digitsOf coefficient).length + Decimal.exponentBound ≤ length) :
    2 * (coefficient * quantaPerUnit) < 10 ^ length := by
  have hdigits : coefficient < 10 ^ (digitsOf coefficient).length := by
    conv_lhs => rw [← wholeOf_digitsOf coefficient]
    exact wholeOf_lt fun c => isDigit_of_mem_digitsOf
  have hquantum : 2 * quantaPerUnit ≤ 10 ^ Decimal.exponentBound := by decide +kernel
  calc 2 * (coefficient * quantaPerUnit) = coefficient * (2 * quantaPerUnit) := by ring
    _ ≤ coefficient * 10 ^ Decimal.exponentBound := Nat.mul_le_mul_left _ hquantum
    _ < 10 ^ (digitsOf coefficient).length * 10 ^ Decimal.exponentBound :=
        Nat.mul_lt_mul_of_pos_right hdigits (ten_pow_pos _)
    _ = 10 ^ ((digitsOf coefficient).length + Decimal.exponentBound) := (Nat.pow_add ..).symm
    _ ≤ 10 ^ length := Nat.pow_le_pow_right (by decide) h

/-- A decimal number is the value nearest to its quotient, also where it is far below the least
positive value. -/
theorem toBinary64_eq_ofQuotient (negative : Bool) (coefficient length : Nat) :
    Decimal.toBinary64 ⟨negative, coefficient, -(length : Int)⟩ =
      .ofQuotient negative (coefficient * quantaPerUnit) (10 ^ length) := by
  rcases Nat.lt_or_ge Decimal.exponentBound length with hmany | hfew
  case inr => exact toBinary64_of_places negative coefficient hfew
  unfold Decimal.toBinary64
  dsimp only
  have hpos : 0 < length := Nat.lt_of_le_of_lt (Nat.zero_le _) hmany
  by_cases hzero : coefficient = 0
  · rw [if_pos hzero, hzero, Nat.zero_mul, ofQuotient_zero negative (ten_pow_pos length)]
  have hlength : (- -(length : Int)).toNat = length := by omega
  rw [if_neg hzero, if_neg (by omega), hlength]
  split
  · rename_i hsmall
    exact (ofQuotient_eq_zero (two_mul_quanta_lt hsmall.le) negative).symm
  · rfl

/-- A quotient no larger than one that is rounded to a finite value is, too, with either sign. -/
theorem isFinite_ofQuotient_of_le {num den num' den' : Nat} (hden : 0 < den) (hden' : 0 < den')
    (h : num * den' ≤ num' * den) (negative : Bool) {negative' : Bool}
    (hfinite : (Binary64.ofQuotient negative' num' den').isFinite = true) :
    (Binary64.ofQuotient negative num den).isFinite = true := by
  have hordinal := nearestOrdinal_le_nearestOrdinal hden hden' h
  unfold Binary64.ofQuotient at hfinite ⊢
  split at hfinite
  · rw [dif_pos (by omega)]
    rfl
  · cases hfinite

/-- A quotient no larger than one within the ceiling is within it, with either sign. -/
theorem exceedsCeiling_ofQuotient {num den num' den' : Nat} (hden : 0 < den) (hden' : 0 < den')
    (h : num * den' ≤ num' * den) (negative : Bool) {negative' : Bool}
    (hceiling : (Binary64.ofQuotient negative' num' den').exceedsCeiling = false) :
    (Binary64.ofQuotient negative num den).exceedsCeiling = false := by
  have hfinite' := Binary64.isFinite_of_exceedsCeiling hceiling
  have hfinite := isFinite_ofQuotient_of_le hden hden' h negative hfinite'
  refine Binary64.exceedsCeiling_of_magnitude_le hfinite ?_ hceiling
  rw [Binary64.magnitude_ofQuotient hfinite, Binary64.magnitude_ofQuotient hfinite']
  exact magnitudeOf_le_magnitudeOf (nearestOrdinal_le_nearestOrdinal hden hden' h)

namespace DisplayNumber

variable (n : DisplayNumber)

/-- All digits of a number, the point left out. -/
def digits : Text := n.whole ++ n.places?.getD []

/-- The value nearest to a number. -/
def value : Binary64 :=
  .ofQuotient n.negative (wholeOf n.digits * quantaPerUnit) (10 ^ (n.places?.getD []).length)

theorem isDigit_of_mem_digits : ∀ c ∈ n.digits, c.isDigit = true := by
  intro c hc
  rcases List.mem_append.mp hc with hc | hc
  · exact n.whole_digits c hc
  · exact n.places_digits c hc

theorem decimal?_unsigned : Numeral.decimal? n.negative n.unsigned =
    some ⟨n.negative, wholeOf n.digits, -(n.places?.getD []).length⟩ := by
  have hplaces := n.places_digits
  unfold unsigned digits
  cases hp : n.places? with
  | none =>
    rw [List.append_nil, Numeral.decimal?_digits n.whole_ne_nil n.whole_digits]
    simp
  | some places =>
    rw [hp] at hplaces
    exact Numeral.decimal?_point (Or.inl n.whole_ne_nil) n.whole_digits hplaces

theorem read?_text : Numeral.read? n.text = some n.value := by
  rw [text, Numeral.read?_signText n.isNumeralChar_of_mem_unsigned, decimal?_unsigned,
    Option.map_some, toBinary64_eq_ofQuotient]
  rfl

theorem separator_notMem_text : separator ∉ n.text :=
  fun hmem => ne_separator_of_isInfixChar (n.isInfixChar_of_mem_text separator hmem) rfl

/-- **What a number on the display is read as.** -/
theorem readDisplay?_text : readDisplay? n.text = (some n.value).filter Binary64.isFinite := by
  have hblanks : ∀ c ∈ n.text, Text.isBlank c = false := fun c hc =>
    isBlank_of_isInfixChar (n.isInfixChar_of_mem_text c hc)
  rw [readDisplay?, Text.trim_of_all hblanks, eraseSeparators_of_notMem n.separator_notMem_text,
    n.read?_text]

theorem isSome_readDisplay?_text (h : n.value.isFinite = true) :
    (readDisplay? n.text).isSome = true := by
  rw [n.readDisplay?_text, Option.filter_some, if_pos h]
  rfl

theorem value_eq_of_readDisplay? {x : Binary64} (h : readDisplay? n.text = some x) :
    n.value = x := by
  rw [readDisplay?_text] at h
  exact Option.some.inj (Option.filter_eq_some_iff.mp h).1

/-! ## Few digits -/

theorem digitCount_text : Text.digitCount n.text = n.digits.length := by
  have hplaces := n.places_digits
  have hsign : (signText n.negative).countP Char.isDigit = 0 := by
    cases n.negative <;> rfl
  unfold Text.digitCount text unsigned digits
  rw [List.countP_append, List.countP_append, hsign, Nat.zero_add, List.length_append,
    List.countP_eq_length.mpr n.whole_digits]
  cases hp : n.places? with
  | none => rfl
  | some places =>
    rw [hp] at hplaces
    simp only [Option.getD_some] at hplaces ⊢
    rw [List.countP_cons_of_neg (by decide), List.countP_eq_length.mpr hplaces]

/-- **Numbers of up to twelve digits are within the ceiling.** -/
theorem exceedsCeiling_of_digitCount (h : Text.digitCount n.text ≤ digitCeiling) :
    n.value.exceedsCeiling = false := by
  have hlargest : (Binary64.ofNat (10 ^ digitCeiling - 1)).exceedsCeiling = false := by
    decide +kernel
  -- as a whole number the digits are no larger, and the point only divides
  have hsmall : wholeOf n.digits ≤ 10 ^ digitCeiling - 1 := by
    refine Nat.le_sub_one_of_lt (Nat.lt_of_lt_of_le (wholeOf_lt n.isDigit_of_mem_digits) ?_)
    exact Nat.pow_le_pow_right (by decide) (n.digitCount_text ▸ h)
  refine exceedsCeiling_ofQuotient (ten_pow_pos _) Nat.one_pos ?_ _ hlargest
  calc wholeOf n.digits * quantaPerUnit * 1 ≤ (10 ^ digitCeiling - 1) * quantaPerUnit * 1 :=
        Nat.mul_le_mul_right _ (Nat.mul_le_mul_right _ hsmall)
    _ ≤ (10 ^ digitCeiling - 1) * quantaPerUnit * 10 ^ (n.places?.getD []).length :=
        Nat.mul_le_mul_left _ (ten_pow_pos _)

/-! ## Comparing numbers -/

/-- Whether a number is no larger than another, their signs left out. -/
def IsAtMost (m n : DisplayNumber) : Prop :=
  wholeOf m.digits * quantaPerUnit * 10 ^ (n.places?.getD []).length ≤
    wholeOf n.digits * quantaPerUnit * 10 ^ (m.places?.getD []).length

theorem IsAtMost.exceedsCeiling {m n : DisplayNumber} (h : m.IsAtMost n)
    (hn : n.value.exceedsCeiling = false) : m.value.exceedsCeiling = false :=
  exceedsCeiling_ofQuotient (ten_pow_pos _) (ten_pow_pos _) h _ hn

theorem IsAtMost.isFinite {m n : DisplayNumber} (h : m.IsAtMost n)
    (hn : n.value.isFinite = true) : m.value.isFinite = true :=
  isFinite_ofQuotient_of_le (ten_pow_pos _) (ten_pow_pos _) h _ hn

/-! ## One key -/

/-- A digit is added to the places, or before there is a point to the whole part. -/
theorem exists_text_push {d : Char} (hd : d.isDigit = true) :
    ∃ m : DisplayNumber, m.text = n.text ++ [d] := by
  have hpush : ∀ {t : Text}, (∀ c ∈ t, c.isDigit = true) → ∀ c ∈ t ++ [d], c.isDigit = true := by
    intro t ht c hc
    rcases List.mem_append.mp hc with hc | hc
    · exact ht c hc
    · exact List.mem_singleton.mp hc ▸ hd
  have hplaces := n.places_digits
  cases hp : n.places? with
  | none =>
    refine ⟨{ n with whole := n.whole ++ [d], whole_ne_nil := by simp,
                     whole_digits := hpush n.whole_digits }, ?_⟩
    simp [text, unsigned, hp]
  | some places =>
    rw [hp] at hplaces
    refine ⟨{ n with places? := some (places ++ [d]), places_digits := hpush hplaces }, ?_⟩
    simp [text, unsigned, hp]

/-- A point behind the whole part changes no value. -/
theorem exists_text_point (h : '.' ∉ n.text) :
    ∃ m : DisplayNumber, m.text = n.text ++ ['.'] ∧ m.IsAtMost n := by
  cases hp : n.places? with
  | none =>
    refine ⟨{ n with places? := some [], places_digits := isDigit_of_mem_nil }, ?_, ?_⟩
    · simp [text, unsigned, hp]
    · simp [IsAtMost, digits, hp]
  | some places => exact absurd (by simp [text, unsigned, hp]) h

/-- A number with the other sign. -/
def flip : DisplayNumber := { n with negative := !n.negative }

theorem isAtMost_flip : n.flip.IsAtMost n := Nat.le_refl _

/-- Without its last digit a run of digits denotes at most a tenth. -/
theorem wholeOf_mul_ten_le (t : Text) (d : Char) : wholeOf t * 10 ≤ wholeOf (t ++ [d]) := by
  rw [wholeOf_append]
  exact Nat.le_add_right _ _

theorem dropLast_text : n.text.dropLast = signText n.negative ++ n.unsigned.dropLast := by
  obtain ⟨d, rest, hcons, -⟩ := n.exists_unsigned_eq_cons
  exact List.dropLast_append_of_ne_nil (hcons ▸ List.cons_ne_nil d rest)

/-- A digit of the whole part goes, and is not its only one. -/
theorem exists_text_dropLast_whole (hp : n.places? = none) (hlong : 2 ≤ n.unsigned.length) :
    ∃ m : DisplayNumber, m.text = n.text.dropLast ∧ m.IsAtMost n := by
  rcases List.eq_nil_or_concat' n.whole with hnil | ⟨init, d, hwhole⟩
  · exact absurd hnil n.whole_ne_nil
  have hinit : init ≠ [] := by
    rintro rfl
    simp [unsigned, hp, hwhole] at hlong
  have hdigits : ∀ c ∈ init, c.isDigit = true := fun c hc =>
    n.whole_digits c (by simp [hwhole, hc])
  refine ⟨{ n with whole := init, whole_ne_nil := hinit, whole_digits := hdigits }, ?_, ?_⟩
  · rw [n.dropLast_text]
    simp [text, unsigned, hp, hwhole]
  · simp only [IsAtMost, digits, hp, hwhole, Option.getD_none, List.append_nil]
    refine Nat.mul_le_mul_right _ (Nat.mul_le_mul_right _ ?_)
    exact (Nat.le_mul_of_pos_right _ (by decide)).trans (wholeOf_mul_ten_le init d)

/-- A point at the end goes. -/
theorem exists_text_dropLast_point (hp : n.places? = some []) :
    ∃ m : DisplayNumber, m.text = n.text.dropLast ∧ m.IsAtMost n := by
  refine ⟨{ n with places? := none, places_digits := isDigit_of_mem_nil }, ?_, ?_⟩
  · rw [n.dropLast_text]
    simp [text, unsigned, hp]
  · simp [IsAtMost, digits, hp]

/-- A digit of the places goes. -/
theorem exists_text_dropLast_place {init : Text} {d : Char} (hp : n.places? = some (init ++ [d])) :
    ∃ m : DisplayNumber, m.text = n.text.dropLast ∧ m.IsAtMost n := by
  have hplaces := n.places_digits
  rw [hp] at hplaces
  have hdigits : ∀ c ∈ init, c.isDigit = true := fun c hc =>
    hplaces c (List.mem_append_left _ hc)
  refine ⟨{ n with places? := some init, places_digits := hdigits }, ?_, ?_⟩
  · have hpoint : ('.' :: (init ++ [d])).dropLast = '.' :: init := by
      rw [← List.cons_append, List.dropLast_concat]
    rw [n.dropLast_text]
    simp [text, unsigned, hp, hpoint]
  · simp only [IsAtMost, digits, hp, Option.getD_some, List.length_append, List.length_singleton,
      ← List.append_assoc]
    calc wholeOf (n.whole ++ init) * quantaPerUnit * 10 ^ (init.length + 1)
        = wholeOf (n.whole ++ init) * 10 * quantaPerUnit * 10 ^ init.length := by
          rw [Nat.pow_succ]
          ring
      _ ≤ wholeOf (n.whole ++ init ++ [d]) * quantaPerUnit * 10 ^ init.length :=
          Nat.mul_le_mul_right _ (Nat.mul_le_mul_right _ (wholeOf_mul_ten_le _ d))

/-- **One character less**: what is left of a number, but for its sign, is a number, and no larger
than before. -/
theorem exists_text_dropLast (hlong : 2 ≤ n.unsigned.length) :
    ∃ m : DisplayNumber, m.text = n.text.dropLast ∧ m.IsAtMost n := by
  cases hp : n.places? with
  | none => exact n.exists_text_dropLast_whole hp hlong
  | some places =>
    rcases List.eq_nil_or_concat' places with rfl | ⟨init, d, rfl⟩
    · exact n.exists_text_dropLast_point hp
    · exact n.exists_text_dropLast_place hp

end DisplayNumber

end Keypad
