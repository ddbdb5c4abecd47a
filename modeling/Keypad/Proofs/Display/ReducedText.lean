import Keypad.Proofs.Display.ExponentForm
import Keypad.Proofs.Display.ShortestText
import Mathlib.Data.Rat.Cast.Order

/-!
# The reduced text of a value

A finite value is written in digits without a needless zero, a bare point, or a sign in front of
zero.  Trimming drops zeros by their character alone, and yet never one of a whole number: without
places there is no point, so nothing is dropped, and with places the point stops it.  So the number
that is left is the one that the fixed places denote.

## Main definitions

* `denoted?`: the rational number that a text denotes
* `DisplayNumber.IsReduced`: a number without a needless zero, point or sign, and with few places

## Main results

* `denoted?_fixed`: a value to fixed places denotes its nearest whole number of units
* `IsTrimmed.exists_isReduced`: a trimmed number is reduced once the sign of a zero is dropped
* `write_denotes_fixed`: what is written is reduced, and denotes the number of the fixed places
-/

namespace Keypad

/-! ## The number that a text denotes -/

/-- The rational number that a decimal number is. -/
def Decimal.toRat (d : Decimal) : ℚ :=
  (if d.negative then -1 else 1) * d.coefficient * 10 ^ d.exponent

/-- The rational number that a text denotes, if it is a numeral in digits. -/
def denoted? (t : Text) : Option ℚ :=
  (Numeral.decimal? (Numeral.splitSign t).1 (Numeral.splitSign t).2).map Decimal.toRat

namespace DisplayNumber

variable {m n : DisplayNumber} {places : Nat}

/-- The rational number of the digits: as a whole number they are divided by a power of ten. -/
def toRat (n : DisplayNumber) : ℚ :=
  (if n.negative then -1 else 1) * wholeOf n.digits / (10 ^ n.decimals : Nat)

theorem denoted?_text (n : DisplayNumber) : denoted? n.text = some n.toRat := by
  unfold denoted?
  rw [text, Numeral.splitSign_signText n.isNumeralChar_of_mem_unsigned, decimal?_unsigned,
    Option.map_some, Decimal.toRat, toRat, decimals, zpow_neg, zpow_natCast, div_eq_mul_inv,
    Nat.cast_pow, Nat.cast_ofNat]

/-- Numbers with one sign whose digits have one quotient are equal. -/
theorem toRat_eq (hsign : m.negative = n.negative)
    (h : wholeOf m.digits * 10 ^ n.decimals = wholeOf n.digits * 10 ^ m.decimals) :
    m.toRat = n.toRat := by
  have hm : ((10 ^ m.decimals : Nat) : ℚ) ≠ 0 := Nat.cast_ne_zero.mpr (ten_pow_pos _).ne'
  have hn : ((10 ^ n.decimals : Nat) : ℚ) ≠ 0 := Nat.cast_ne_zero.mpr (ten_pow_pos _).ne'
  have hcross : (wholeOf m.digits : ℚ) * (10 ^ n.decimals : Nat) =
      wholeOf n.digits * (10 ^ m.decimals : Nat) := by exact_mod_cast h
  rw [toRat, toRat, hsign, div_eq_div_iff hm hn, mul_assoc, hcross, mul_assoc]

/-! ## Reduced numbers -/

/-- A number without a needless zero, point or sign, and with no more than some number of places. -/
structure IsReduced (n : DisplayNumber) (places : Nat) : Prop where
  whole : n.whole = ['0'] ∨ n.whole.head? ≠ some '0'
  fraction : ∀ fraction ∈ n.places?,
    fraction.length ≤ places ∧ ∃ init last, fraction = init ++ [last] ∧ last ≠ '0'
  sign : n.text ≠ ['-', '0']
  point : n.text.getLast? ≠ some '.'

/-- Only a bare point ends a number in one. -/
theorem getLast?_text_ne_point (h : n.places? ≠ some []) : n.text.getLast? ≠ some '.' := by
  -- a run of digits ends in a digit, whatever stands in front of it
  have hlast : ∀ {init digits : Text} {last : Char}, digits = init ++ [last] →
      (∀ c ∈ digits, c.isDigit = true) → ∀ front, (front ++ digits).getLast? ≠ some '.' := by
    intro init digits last heq hdigits front
    have hdigit := hdigits last (heq ▸ List.mem_append_right _ (List.mem_singleton_self last))
    rw [heq, ← List.append_assoc, List.getLast?_concat, ne_eq, Option.some.injEq]
    exact ne_of_kind hdigit rfl
  have hplaces := n.places_digits
  unfold text unsigned
  cases hp : n.places? with
  | none =>
    rcases List.eq_nil_or_concat' n.whole with hnil | ⟨init, last, heq⟩
    · exact absurd hnil n.whole_ne_nil
    · rw [List.append_nil]
      exact hlast heq n.whole_digits _
  | some fraction =>
    rw [hp] at hplaces
    rcases List.eq_nil_or_concat' fraction with rfl | ⟨init, last, heq⟩
    · exact absurd hp h
    · rw [← List.append_assoc, List.append_cons]
      exact hlast heq hplaces _

theorem IsTrimmed.isReduced (h : n.IsTrimmed) (hdecimals : n.decimals ≤ places)
    (hsign : n.text ≠ ['-', '0']) : n.IsReduced places where
  whole := by
    have hwhole := h.whole
    rcases Nat.eq_zero_or_pos (wholeOf n.whole) with hzero | hpos
    · rw [hzero] at hwhole
      exact Or.inl hwhole
    · refine Or.inr fun hhead => ?_
      obtain ⟨rest, hrest⟩ := List.head?_eq_some_iff.mp hhead
      exact head_digitsOf_ne_zero hpos (hwhole.symm.trans hrest)
  fraction := by
    intro fraction hfraction
    rw [decimals, hfraction] at hdecimals
    refine ⟨hdecimals, ?_⟩
    rcases List.eq_nil_or_concat' fraction with rfl | ⟨init, last, rfl⟩
    · exact absurd hfraction h.point
    · refine ⟨init, last, rfl, ?_⟩
      rintro rfl
      exact h.zero init hfraction
  sign := hsign
  point := getLast?_text_ne_point h.point

theorem isReduced_zero (places : Nat) : zero.IsReduced places where
  whole := Or.inl rfl
  fraction := nofun
  sign := by decide
  point := by decide

/-- **A trimmed number is reduced** once the sign of a zero is dropped, and the same number. -/
theorem IsTrimmed.exists_isReduced (h : n.IsTrimmed) (hdecimals : n.decimals ≤ places) :
    ∃ m : DisplayNumber, dropZeroSign n.text = m.text ∧ m.IsReduced places ∧ m.toRat = n.toRat := by
  by_cases hsign : n.text = ['-', '0']
  · -- a zero has the same number with either sign
    refine ⟨DisplayNumber.zero, if_pos (Or.inr hsign), isReduced_zero places, ?_⟩
    have hflip : some n.toRat = some DisplayNumber.zero.flip.toRat := by
      rw [← denoted?_text, ← denoted?_text, hsign]
      rfl
    have hzero : wholeOf ['0'] = 0 := rfl
    rw [Option.some.inj hflip]
    simp [toRat, flip, DisplayNumber.zero, ofDigit, digits, hzero]
  · obtain ⟨first, rest, hcons, -⟩ := n.exists_unsigned_eq_cons
    have hnil : n.text ≠ [] := by
      rw [text, hcons]
      exact List.append_ne_nil_of_right_ne_nil _ (List.cons_ne_nil first rest)
    exact ⟨n, if_neg (not_or.mpr ⟨hnil, hsign⟩), h.isReduced hdecimals hsign, rfl⟩

/-- A number of units, with either sign, as it stands around the point. -/
theorem exists_text_placePoint (negative : Bool) (places units : Nat) :
    ∃ m : DisplayNumber, signText negative ++ placePoint places units = m.text ∧
      m.negative = negative ∧ m.decimals = places ∧ wholeOf m.digits = units := by
  rcases Nat.eq_zero_or_pos places with rfl | hpos
  · refine ⟨⟨negative, digitsOf units, none, Nat.toDigits_ne_nil,
      fun c => isDigit_of_mem_digitsOf, isDigit_of_mem_nil⟩, ?_, rfl, rfl, ?_⟩
    · rw [text, unsigned, List.append_nil]
      rfl
    · rw [digits, Option.getD_none, List.append_nil, wholeOf_digitsOf]
  · obtain ⟨whole, fraction, heq, hne, hwhole, hfraction, hlength, hunits⟩ :=
      placePoint_eq hpos units
    refine ⟨⟨negative, whole, some fraction, hne, hwhole, hfraction⟩, ?_, rfl, hlength, hunits⟩
    rw [heq]
    rfl

end DisplayNumber

/-! ## Written values -/

variable {style : Style} {x : Binary64}

/-- A value to fixed places denotes its nearest whole number of units of the last place. -/
theorem denoted?_fixed (negative : Bool) (ordinal : Fin ordinalCount) (places : Nat) :
    denoted? ((Binary64.finite negative ordinal).fixed places) =
      some ((if negative then (-1 : ℚ) else 1) *
        (roundEven (magnitudeOf ordinal * 10 ^ places) quantaPerUnit : Nat) /
          (10 ^ places : Nat)) := by
  obtain ⟨m, htext, hsign, hdecimals, hunits⟩ :=
    DisplayNumber.exists_text_placePoint negative places
      (roundEven (magnitudeOf ordinal * 10 ^ places) quantaPerUnit)
  rw [Binary64.fixed, htext, m.denoted?_text, DisplayNumber.toRat, hsign, hdecimals, hunits]

/-- **What is written is reduced and denotes the number of the fixed places** that the value is
rounded to. -/
theorem write_denotes_fixed (hscientific : style.scientific = false) (hx : x.isFinite = true) :
    ∃ n : DisplayNumber, eraseSeparators (style.write x) = n.text ∧ n.IsReduced style.places ∧
      ∃ q, denoted? n.text = some q ∧
        denoted? ((x.roundTo style.places).fixed style.places) = some q := by
  have hfinite := Binary64.isFinite_roundTo style.places hx
  have hdigits : style.isWide x = false := by rw [Style.isWide, hscientific]; rfl
  rw [Style.eraseSeparators_write_of_not_isWide hdigits, Style.literal]
  generalize x.roundTo style.places = rounded at hfinite
  cases rounded with
  | nan => cases hfinite
  | infinite negative => cases hfinite
  | finite negative ordinal =>
    rw [Binary64.fixed]
    generalize roundEven (magnitudeOf ordinal * 10 ^ style.places) quantaPerUnit = units
    obtain ⟨m, hfixed, hm, hplaces, hunits⟩ :=
      DisplayNumber.exists_text_placePoint negative style.places units
    obtain ⟨d, htrim, hd, htrimmed, hdecimals, hvalue⟩ :=
      exists_isTrimmed_eq negative style.places units
    obtain ⟨n, hn, hreduced, hdenoted⟩ := htrimmed.exists_isReduced hdecimals
    refine ⟨n, htrim.trans hn, hreduced, n.toRat, n.denoted?_text, ?_⟩
    -- the zeros that are dropped are as many as the places that are lost
    have hsame : d.toRat = m.toRat :=
      DisplayNumber.toRat_eq (hd.trans hm.symm) (by rw [hplaces, hunits, hvalue])
    rw [hfixed, m.denoted?_text, hdenoted, hsame]

/-- The zeros of a whole number stay: minus twelve hundred and two fifths to no places, grouped. -/
theorem write_denotes_fixed_hundreds :
    (⟨0, true, false⟩ : Style).write (.ofQuotient true (6002 * quantaPerUnit) 5) =
        "-1,200".toList ∧
      ∃ n : DisplayNumber, eraseSeparators
          ((⟨0, true, false⟩ : Style).write (.ofQuotient true (6002 * quantaPerUnit) 5)) = n.text ∧
        n.IsReduced 0 ∧ ∃ q, denoted? n.text = some q ∧
          denoted? (((Binary64.ofQuotient true (6002 * quantaPerUnit) 5).roundTo 0).fixed 0) =
            some q :=
  ⟨by decide +kernel, write_denotes_fixed rfl (by decide +kernel)⟩

end Keypad
