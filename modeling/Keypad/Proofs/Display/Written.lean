import Keypad.Proofs.Display.Separators
import Keypad.Proofs.Display.Settled

/-!
# Reading what is written

A finite value is written to fixed places as its nearest whole number of units of the last place.
Dropping the zeros that end the fraction changes the number of digits and the unit together, so what
is left denotes the same number; and separators are not read.  Hence reading what is written gives
the value nearest to that number of units, and a zero without a sign.

## Main definitions

* `Binary64.dropZeroSign`: a value, its sign dropped from a zero

## Main results

* `placePoint_eq_digitsOf`: the digits of a number of units
* `readDisplay?_literal`, `readDisplay?_write`: the value of what is written
-/

namespace Keypad

variable {places : Nat} {s t : Text} {drop : Char → Bool}

/-! ## Dropping what ends a text -/

theorem trimEndBy_append_of_ne_nil (s : Text) (h : Text.trimEndBy drop t ≠ []) :
    Text.trimEndBy drop (s ++ t) = s ++ Text.trimEndBy drop t := by
  have hne : ¬ (t.reverse.dropWhile drop).isEmpty = true := by
    intro hempty
    exact h (by simp [Text.trimEndBy, List.isEmpty_iff.mp hempty])
  rw [Text.trimEndBy, List.reverse_append, List.dropWhile_append, if_neg hne, List.reverse_append,
    List.reverse_reverse, Text.trimEndBy]

theorem trimEndBy_append_of_eq_nil (s : Text) (h : Text.trimEndBy drop t = []) :
    Text.trimEndBy drop (s ++ t) = Text.trimEndBy drop s := by
  have hempty : (t.reverse.dropWhile drop).isEmpty = true := by
    simpa [Text.trimEndBy] using h
  rw [Text.trimEndBy, List.reverse_append, List.dropWhile_append, if_pos hempty, Text.trimEndBy]

/-- A text that ends in a digit ends in no point. -/
theorem trimEndBy_point_of_digits (hne : t ≠ []) (h : ∀ c ∈ t, c.isDigit = true) (s : Text) :
    Text.trimEndBy (· == '.') (s ++ t) = s ++ t := by
  have hself : Text.trimEndBy (· == '.') t = t := by
    have hdrop : t.reverse.dropWhile (· == '.') = t.reverse := by
      refine List.dropWhile_eq_self_iff.mpr fun hlength hpoint => ?_
      have hmem : t.reverse[0] ∈ t := List.mem_reverse.mp (List.getElem_mem hlength)
      rw [beq_iff_eq] at hpoint
      rw [hpoint] at hmem
      exact absurd (h '.' hmem) (by decide)
    rw [Text.trimEndBy, hdrop, List.reverse_reverse]
  rw [trimEndBy_append_of_ne_nil s (by rwa [hself]), hself]

/-- What is dropped is a run of the dropped character. -/
theorem exists_eq_append_replicate (c : Char) (t : Text) :
    ∃ n, t = Text.trimEndBy (· == c) t ++ List.replicate n c := by
  refine ⟨(t.reverse.takeWhile (· == c)).length, ?_⟩
  have hrun : (t.reverse.takeWhile (· == c)).reverse =
      List.replicate (t.reverse.takeWhile (· == c)).length c := by
    refine List.eq_replicate_iff.mpr ⟨List.length_reverse, fun d hd => ?_⟩
    have hd := List.mem_takeWhile_imp (List.mem_reverse.mp hd)
    simpa using hd
  rw [← hrun, Text.trimEndBy, ← List.reverse_append, List.takeWhile_append_dropWhile,
    List.reverse_reverse]

/-- Nothing is left to drop. -/
theorem trimEndBy_ne_concat {c : Char} (hc : drop c = true) (t init : Text) :
    Text.trimEndBy drop t ≠ init ++ [c] := by
  intro h
  have hreverse : t.reverse.dropWhile drop = c :: init.reverse := by
    rw [← List.reverse_reverse (t.reverse.dropWhile drop)]
    simpa [Text.trimEndBy] using congrArg List.reverse h
  have hkept := List.head?_dropWhile_not drop t.reverse
  rw [hreverse] at hkept
  simp [hc] at hkept

/-- **Trimming a literal**: the zeros that end its fraction go, and the point if nothing is left
behind it. -/
theorem dropFractionZeros_eq {whole fraction : Text} (hwhole : whole ≠ [])
    (hw : ∀ c ∈ whole, c.isDigit = true) (hf : ∀ c ∈ fraction, c.isDigit = true)
    (negative : Bool) :
    dropFractionZeros (signText negative ++ (whole ++ '.' :: fraction)) =
      dropZeroSign (signText negative ++
        if Text.trimEndBy (· == '0') fraction = [] then whole
        else whole ++ '.' :: Text.trimEndBy (· == '0') fraction) := by
  obtain ⟨n, hn⟩ := exists_eq_append_replicate '0' fraction
  generalize hkept : Text.trimEndBy (· == '0') fraction = kept at hn ⊢
  have hk : ∀ c ∈ kept, c.isDigit = true := fun c hc =>
    hf c (by rw [hn]; exact List.mem_append_left _ hc)
  have hpoint : '.' ∈ signText negative ++ (whole ++ '.' :: fraction) := by simp
  have hfront : signText negative ++ (whole ++ '.' :: fraction) =
      signText negative ++ whole ++ ['.'] ++ fraction := by simp
  have hstop : ∀ s : Text, Text.trimEndBy (· == '0') (s ++ ['.']) = s ++ ['.'] := fun s =>
    trimEndBy_append_of_ne_nil s (List.cons_ne_nil '.' [])
  have hbare : ∀ s : Text, Text.trimEndBy (· == '.') (s ++ ['.']) = Text.trimEndBy (· == '.') s :=
    fun s => trimEndBy_append_of_eq_nil s rfl
  rw [dropFractionZeros, if_pos hpoint, hfront]
  by_cases hnil : kept = []
  · rw [if_pos hnil, trimEndBy_append_of_eq_nil _ (hkept.trans hnil), hstop, hbare,
      trimEndBy_point_of_digits hwhole hw]
  · rw [if_neg hnil, trimEndBy_append_of_ne_nil _ (hkept ▸ hnil), hkept,
      trimEndBy_point_of_digits hnil hk]
    simp

theorem dropFractionZeros_point {whole fraction : Text} (hwhole : whole ≠ [])
    (hw : ∀ c ∈ whole, c.isDigit = true) (hf : ∀ c ∈ fraction, c.isDigit = true)
    (negative : Bool) : ∃ kept n, fraction = kept ++ List.replicate n '0' ∧
      dropFractionZeros (signText negative ++ (whole ++ '.' :: fraction)) =
        dropZeroSign (signText negative ++
          if kept = [] then whole else whole ++ '.' :: kept) := by
  obtain ⟨n, hn⟩ := exists_eq_append_replicate '0' fraction
  exact ⟨_, n, hn, dropFractionZeros_eq hwhole hw hf negative⟩

/-- Without places there is no point, so no zero is dropped. -/
theorem dropFractionZeros_of_no_places (negative : Bool) (units : Nat) :
    dropFractionZeros (signText negative ++ placePoint 0 units) =
      dropZeroSign (signText negative ++ digitsOf units) := by
  have hpoint : '.' ∉ signText negative ++ digitsOf units := by
    intro hmem
    rcases List.mem_append.mp hmem with hmem | hmem
    · cases negative with
      | true => exact absurd (List.mem_singleton.mp hmem) (by decide)
      | false => cases hmem
    · exact absurd (isDigit_of_mem_digitsOf hmem) (by decide)
  exact if_neg hpoint

/-! ## The digits of a number of units -/

/-- The number of units is read off its digits. -/
theorem wholeOf_append (s t : Text) : wholeOf (s ++ t) = wholeOf s * 10 ^ t.length + wholeOf t := by
  unfold wholeOf
  rw [Nat.ofDigitChars_append, Nat.ofDigitChars_eq_ofDigitChars_zero, Nat.mul_comm]

/-- The digits of a positive number do not begin with zero. -/
theorem head_digitsOf_ne_zero {k : Nat} (hk : 0 < k) {rest : Text} :
    digitsOf k ≠ '0' :: rest := by
  intro heq
  have hdigits : ∀ c ∈ rest, c.isDigit = true := fun c hc =>
    isDigit_of_mem_digitsOf (heq ▸ List.mem_cons_of_mem _ hc)
  have hvalue : k = wholeOf rest := by
    rw [← wholeOf_digitsOf k, heq]
    rfl
  have hlength : (digitsOf k).length = rest.length + 1 := by rw [heq, List.length_cons]
  rcases Nat.eq_zero_or_pos rest.length with hnil | hpos
  · rw [List.eq_nil_of_length_eq_zero hnil] at hvalue
    exact absurd hvalue (Nat.ne_of_gt hk)
  · -- one digit less would do
    have hless : (digitsOf k).length ≤ rest.length :=
      (Nat.length_toDigits_le_iff (by decide) hpos).mpr (hvalue ▸ wholeOf_lt hdigits)
    omega

/-- The digits of a number of units around the point; those before it have no needless zero. -/
theorem placePoint_eq_digitsOf (hpos : 1 ≤ places) (n : Nat) : ∃ fraction : Text,
    placePoint places n = digitsOf (n / 10 ^ places) ++ '.' :: fraction ∧
      (∀ c ∈ fraction, c.isDigit = true) ∧ fraction.length = places ∧
      wholeOf (digitsOf (n / 10 ^ places) ++ fraction) = n := by
  have hlength : (padStart places (digitsOf (n % 10 ^ places))).length = places := by
    have hfew : (digitsOf (n % 10 ^ places)).length ≤ places :=
      (Nat.length_toDigits_le_iff (by decide) hpos).mpr (Nat.mod_lt _ (ten_pow_pos places))
    rw [length_padStart, Nat.max_eq_left hfew]
  refine ⟨padStart places (digitsOf (n % 10 ^ places)), if_neg (by omega),
    isDigit_of_mem_padStart fun c => isDigit_of_mem_digitsOf, hlength, ?_⟩
  rw [wholeOf_append, hlength, wholeOf_padStart, wholeOf_digitsOf, wholeOf_digitsOf,
    Nat.div_add_mod']

theorem placePoint_eq (hpos : 1 ≤ places) (n : Nat) : ∃ whole fraction : Text,
    placePoint places n = whole ++ '.' :: fraction ∧ whole ≠ [] ∧
      (∀ c ∈ whole, c.isDigit = true) ∧ (∀ c ∈ fraction, c.isDigit = true) ∧
      fraction.length = places ∧ wholeOf (whole ++ fraction) = n := by
  obtain ⟨fraction, heq, hf, hlength, hunits⟩ := placePoint_eq_digitsOf hpos n
  exact ⟨_, fraction, heq, Nat.toDigits_ne_nil, fun c => isDigit_of_mem_digitsOf, hf, hlength,
    hunits⟩

namespace Binary64

/-- A value, its sign dropped from a zero. -/
def dropZeroSign (x : Binary64) : Binary64 := if x.isZero then zero false else x

end Binary64

theorem ofQuotient_zero (negative : Bool) {den : Nat} (hden : 0 < den) :
    Binary64.ofQuotient negative 0 den = .zero negative := by
  have hexact := Binary64.ofQuotient_magnitudeOf negative ⟨0, by decide⟩ den hden
  rwa [show magnitudeOf (⟨0, by decide⟩ : Fin ordinalCount).val = 0 from rfl, Nat.zero_mul]
    at hexact

/-- A decimal number with a few places is the nearest value to its quotient. -/
theorem toBinary64_of_places (negative : Bool) (coefficient : Nat) {length : Nat}
    (h : length ≤ Decimal.exponentBound) :
    Decimal.toBinary64 ⟨negative, coefficient, -(length : Int)⟩ =
      .ofQuotient negative (coefficient * quantaPerUnit) (10 ^ length) := by
  unfold Decimal.toBinary64
  dsimp only
  by_cases hzero : coefficient = 0
  · rw [if_pos hzero, hzero, Nat.zero_mul, ofQuotient_zero negative (ten_pow_pos length)]
  · rw [if_neg hzero]
    rcases Nat.eq_zero_or_pos length with rfl | hpos
    · simp [Decimal.exponentBound]
    · have hlength : (- -(length : Int)).toNat = length := by omega
      rw [if_neg (by omega), hlength, if_neg (by omega)]

/-- What trimming leaves of a literal is read as the decimal number it denotes. -/
theorem read?_trimmed {whole kept : Text} (hwhole : whole ≠ [])
    (hw : ∀ c ∈ whole, c.isDigit = true) (hk : ∀ c ∈ kept, c.isDigit = true) (negative : Bool) :
    Numeral.read? (signText negative ++ if kept = [] then whole else whole ++ '.' :: kept) =
      some (Decimal.toBinary64 ⟨negative, wholeOf (whole ++ kept), -(kept.length : Int)⟩) := by
  have hdigits : ∀ c ∈ whole, isNumeralChar c = true := fun c hc =>
    isNumeralChar_of_isDigit (hw c hc)
  by_cases hnil : kept = []
  · rw [if_pos hnil, Numeral.read?_signText hdigits, Numeral.decimal?_digits hwhole hw, hnil]
    simp
  · have hpoint : ∀ c ∈ whole ++ '.' :: kept, isNumeralChar c = true := by
      intro c hc
      rcases List.mem_append.mp hc with hc | hc
      · exact hdigits c hc
      rcases List.mem_cons.mp hc with rfl | hc
      · rfl
      · exact isNumeralChar_of_isDigit (hk c hc)
    rw [if_neg hnil, Numeral.read?_signText hpoint, Numeral.decimal?_point (Or.inl hwhole) hw hk]
    rfl

/-! ## Reading a literal -/

theorem wholeOf_append_replicate (digits : Text) (n : Nat) :
    wholeOf (digits ++ List.replicate n '0') = wholeOf digits * 10 ^ n := by
  unfold wholeOf
  rw [Nat.ofDigitChars_append, Nat.ofDigitChars_replicate_zero, Nat.mul_comm]

/-- A nonzero number of units is not rounded to zero. -/
theorem isZero_ofQuotient_units {n : Nat} (hn : 0 < n) (h : places ≤ 6) (negative : Bool) :
    (Binary64.ofQuotient negative (n * quantaPerUnit) (10 ^ places)).isZero = false := by
  have hquantum : 2 ^ 0 * 10 ^ places ≤ n * quantaPerUnit := by
    calc 2 ^ 0 * 10 ^ places ≤ 1 * 10 ^ 6 :=
          Nat.mul_le_mul_left _ (Nat.pow_le_pow_right (by decide) h)
      _ ≤ 1 * 2 ^ 20 := by decide
      _ ≤ n * quantaPerUnit := Nat.mul_le_mul hn (Nat.pow_le_pow_right Nat.two_pos (by decide))
  have hmagnitude := two_pow_le_nearestMagnitude (ten_pow_pos places) hquantum
  unfold Binary64.ofQuotient
  split
  · refine beq_false_of_ne fun hzero => ?_
    have hordinal : nearestOrdinal (n * quantaPerUnit) (10 ^ places) = 0 := hzero
    rw [nearestMagnitude, hordinal] at hmagnitude
    exact absurd hmagnitude (by decide)
  · rfl

/-- **A number of units, written and trimmed, is read as the value nearest to it**, and zero without
a sign. -/
theorem read?_dropFractionZeros (hpos : 1 ≤ places) (h : places ≤ 6) (negative : Bool) (n : Nat) :
    Numeral.read? (dropFractionZeros (signText negative ++ placePoint places n)) =
      some (Binary64.ofQuotient negative (n * quantaPerUnit) (10 ^ places)).dropZeroSign := by
  rcases Nat.eq_zero_or_pos n with rfl | hn
  · have hliteral : ∀ p ≤ 6, ∀ negative,
        dropFractionZeros (signText negative ++ placePoint p 0) = ['0'] := by decide
    have hread : Numeral.read? ['0'] = some (.zero false) := by decide
    rw [hliteral places h, hread, Nat.zero_mul, ofQuotient_zero negative (ten_pow_pos places)]
    rfl
  · obtain ⟨whole, fraction, heq, hwhole, hw, hf, hlength, hunits⟩ := placePoint_eq hpos n
    obtain ⟨kept, dropped, hkept, htrim⟩ := dropFractionZeros_point hwhole hw hf negative
    have hk : ∀ c ∈ kept, c.isDigit = true := fun c hc =>
      hf c (by rw [hkept]; exact List.mem_append_left _ hc)
    -- dropping zeros divides the number of units and the number of units in one alike
    have hplaces : places = kept.length + dropped := by
      rw [← hlength, hkept, List.length_append, List.length_replicate]
    have hvalue : Decimal.toBinary64 ⟨negative, wholeOf (whole ++ kept), -(kept.length : Int)⟩ =
        .ofQuotient negative (n * quantaPerUnit) (10 ^ places) := by
      rw [toBinary64_of_places negative _ (by unfold Decimal.exponentBound; omega), ← hunits, hkept,
        ← List.append_assoc, wholeOf_append_replicate, hplaces, Nat.pow_add,
        Nat.mul_right_comm _ (10 ^ dropped),
        Binary64.ofQuotient_mul_mul _ _ _ (ten_pow_pos dropped)]
    have hread := read?_trimmed hwhole hw hk negative
    have hne := isZero_ofQuotient_units hn h negative
    rw [hvalue] at hread
    -- only zero is written so that the sign is dropped
    have hkeeps : ∀ t, Numeral.read? t =
        some (Binary64.ofQuotient negative (n * quantaPerUnit) (10 ^ places)) →
        dropZeroSign t = t := by
      intro t ht
      refine if_neg ?_
      rintro (rfl | rfl)
      · cases ht
      · have hminus : Numeral.read? ['-', '0'] = some (.zero true) := by decide
        rw [← Option.some.inj (hminus.symm.trans ht)] at hne
        cases hne
    rw [heq, htrim, hkeeps _ hread, hread, Binary64.dropZeroSign, hne, if_neg Bool.false_ne_true]

variable {style : Style} {x : Binary64}

/-- A literal is read as it stands: it has neither blanks nor separators. -/
theorem readDisplay?_literal (style : Style) (x : Binary64) :
    readDisplay? (style.literal x) =
      (Numeral.read? (style.literal x)).filter Binary64.isFinite := by
  have hblanks : ∀ c ∈ style.literal x, Text.isBlank c = false := fun c hc =>
    isBlank_of_isWrittenChar (isWrittenChar_of_mem_literal c hc)
  have hplain : separator ∉ style.literal x :=
    separator_notMem_of_isWrittenChar isWrittenChar_of_mem_literal
  rw [readDisplay?, Text.trim_of_all hblanks, eraseSeparators_of_notMem hplain]

/-- Within the ceiling no value is written with an exponent. -/
theorem eraseSeparators_write_eq_literal (h : (x.roundTo style.places).exceedsCeiling = false) :
    eraseSeparators (style.write x) = style.literal x := by
  have hfixed : ¬ (style.scientific && (x.roundTo style.places).isFinite &&
      !(x.roundTo style.places).isZero &&
        decide ((digitCeiling : Int) < (x.roundTo style.places).digitsBeforePoint)) = true := by
    rw [Binary64.exceedsCeiling, Bool.or_eq_false_iff] at h
    rw [Bool.and_assoc _ (!_) (decide _), h.2, Bool.and_false]
    exact Bool.false_ne_true
  rw [eraseSeparators_write]
  unfold Style.write
  dsimp only
  rw [if_neg hfixed]
  rfl

/-- **What is written is read** as the value nearest to it, and zero without a sign. -/
theorem readDisplay?_write (hpos : 1 ≤ style.places) (h : style.places ≤ 6)
    (hceiling : (x.roundTo style.places).exceedsCeiling = false)
    (hfinite : ((x.roundTo style.places).toPlaces style.places).isFinite = true) :
    readDisplay? (style.write x) =
      some ((x.roundTo style.places).toPlaces style.places).dropZeroSign := by
  have hread : Numeral.read? (style.literal x) =
      some ((x.roundTo style.places).toPlaces style.places).dropZeroSign := by
    unfold Style.literal
    generalize x.roundTo style.places = rounded at hfinite
    cases rounded with
    | nan => cases hfinite
    | infinite negative => cases hfinite
    | finite negative ordinal => exact read?_dropFractionZeros hpos h negative _
  have hkept : ((x.roundTo style.places).toPlaces style.places).dropZeroSign.isFinite = true := by
    unfold Binary64.dropZeroSign
    split
    · rfl
    · exact hfinite
  rw [← (isTidy_write style x).readDisplay?_eraseSeparators,
    eraseSeparators_write_eq_literal hceiling, readDisplay?_literal, hread, Option.filter_some,
    if_pos hkept]

end Keypad
