import Keypad.Proofs.Binary64.Overflow
import Keypad.Proofs.Display.InDigits
import Keypad.Proofs.Display.NumberValue

/-!
# Reading an exponent form

A value written with an exponent is rounded to a few leading digits.  Just below the end of the
finite range this rounds it up beyond the end: what is written is a number, but it is read as
infinity and so has no value.  No other finite value is written so that it cannot be read.

## Main definitions

* `Decimal.leading`: the decimal number that is written with an exponent
* `Style.Overruns`: a value that is rounded beyond the finite range when it is written

## Main results

* `isFinite_toBinary64_iff`: which decimal numbers are read as finite values
* `read?_scientific`: an exponent form is read as the decimal number that it is
* `isSome_readDisplay?_write_iff`: which finite values can be read once they are written
-/

namespace Keypad

/-! ## Decimal numbers in the finite range -/

namespace Decimal

/-- **Which decimal numbers are finite**: those below the threshold. -/
theorem isFinite_toBinary64_iff (d : Decimal) : d.toBinary64.isFinite = true ↔
    d.coefficient * 10 ^ d.exponent.toNat < overflowThreshold * 10 ^ (-d.exponent).toNat := by
  -- one of the two powers of ten is one, on the side of the sign of the exponent
  rcases Int.lt_or_le d.exponent 0 with hneg | hnonneg
  · have hexponent : d.exponent = -((-d.exponent).toNat : Int) := by omega
    have hvalue : d.toBinary64 = .ofQuotient d.negative (d.coefficient * quantaPerUnit)
        (10 ^ (-d.exponent).toNat) := by
      rw [← toBinary64_eq_ofQuotient, ← hexponent]
    rw [hvalue, isFinite_ofQuotient_iff _ (ten_pow_pos _), Int.toNat_of_nonpos hneg.le,
      Nat.pow_zero, Nat.mul_one, Nat.mul_right_comm]
    exact Nat.mul_lt_mul_right quantaPerUnit_pos
  · rw [Int.toNat_of_nonpos (Int.neg_nonpos_of_nonneg hnonneg), Nat.pow_zero, Nat.mul_one]
    unfold toBinary64
    by_cases hzero : d.coefficient = 0
    · rw [if_pos hzero, hzero, Nat.zero_mul]
      exact iff_of_true rfl overflowThreshold_pos
    rw [if_neg hzero, if_pos hnonneg]
    by_cases hlarge : exponentBound ≤ d.exponent.toNat
    · rw [if_pos hlarge]
      refine iff_of_false Bool.false_ne_true (Nat.not_lt.mpr ?_)
      calc overflowThreshold ≤ 2 * 10 ^ greatestDecade := greatestFinite_bounds.2.2.le
        _ ≤ 10 * 10 ^ greatestDecade := Nat.mul_le_mul_right _ (by decide)
        _ = 10 ^ (greatestDecade + 1) := by rw [Nat.pow_succ']
        _ ≤ 10 ^ exponentBound := Nat.pow_le_pow_right (by decide) (by decide)
        _ ≤ 10 ^ d.exponent.toNat := Nat.pow_le_pow_right (by decide) hlarge
        _ ≤ d.coefficient * 10 ^ d.exponent.toNat :=
            Nat.le_mul_of_pos_left _ (Nat.pos_of_ne_zero hzero)
    · rw [if_neg hlarge, isFinite_ofQuotient_iff _ Nat.one_pos, Nat.mul_one]
      exact Nat.mul_lt_mul_right quantaPerUnit_pos

end Decimal

/-! ## Reading an exponent -/

namespace Numeral

theorem exponent?_exponentText (e : Int) : exponent? (exponentText e) = some e := by
  have hdigits : ∀ c ∈ digitsOf e.natAbs, c.isDigit = true := fun c => isDigit_of_mem_digitsOf
  have hne : digitsOf e.natAbs ≠ [] := Nat.toDigits_ne_nil
  have hrun : ((digitsOf e.natAbs).isEmpty || !(digitsOf e.natAbs).all Char.isDigit) = false := by
    rw [List.all_eq_true.mpr hdigits]
    simpa using hne
  unfold exponentText
  rw [exponent?, if_pos (Or.inl rfl)]
  by_cases hneg : e < 0
  · rw [if_pos hneg]
    simp only [splitSign, hrun, Bool.false_eq_true, if_false, if_true, wholeOf_digitsOf]
    congr 1
    omega
  · rw [if_neg hneg]
    simp only [splitSign, hrun, Bool.false_eq_true, if_false, wholeOf_digitsOf]
    congr 1
    omega

/-- A number of units with an exponent is read as its digits times its power of ten. -/
theorem decimal?_placePoint (negative : Bool) (places units : Nat) (e : Int) :
    decimal? negative (placePoint places units ++ exponentText e) =
      some ⟨negative, units, e - places⟩ := by
  -- the letter of the exponent ends the digits before it
  have hstop : ∀ s : Text, (∀ c ∈ s, c.isDigit = true) →
      (s ++ exponentText e).takeWhile Char.isDigit = s ∧
        (s ++ exponentText e).dropWhile Char.isDigit = exponentText e := by
    intro s hs
    rw [List.takeWhile_append_of_pos hs, List.dropWhile_append_of_pos hs]
    simp [exponentText]
  rcases Nat.eq_zero_or_pos places with rfl | hpos
  · have hdigits : ∀ c ∈ digitsOf units, c.isDigit = true := fun c => isDigit_of_mem_digitsOf
    have hne : digitsOf units ≠ [] := Nat.toDigits_ne_nil
    have hfraction : fraction (exponentText e) = ([], exponentText e) := rfl
    obtain ⟨htake, hdrop⟩ := hstop _ hdigits
    rw [placePoint, if_pos rfl]
    simp [decimal?, htake, hdrop, hfraction, exponent?_exponentText, hne, wholeOf_digitsOf]
  · obtain ⟨whole, digits, heq, hne, hwhole, hdigits, hlength, hunits⟩ := placePoint_eq hpos units
    obtain ⟨htake, hdrop⟩ := hstop _ hdigits
    rw [heq, List.append_assoc, List.cons_append, decimal?_append_point hwhole, htake, hdrop,
      exponent?_exponentText, hunits, hlength, if_neg (by simp [hne])]
    rfl

/-- A text that begins with a digit, behind a sign, is read as a decimal number. -/
theorem read?_signText_cons {d : Char} (hd : d.isDigit = true) (negative : Bool) (t : Text) :
    read? (signText negative ++ d :: t) = (decimal? negative (d :: t)).map Decimal.toBinary64 := by
  have hminus : d ≠ '-' := ne_of_kind hd rfl
  have hplus : d ≠ '+' := ne_of_kind hd rfl
  refine read?_of_splitSign (splitSign_signText_cons hminus hplus negative t) ?_
  rintro _ ⟨⟩
  exact isInfixChar_of_isDigit hd

end Numeral

/-- The decimal number that is written with an exponent: the leading digit of a magnitude and some
more places.  Rounded up to ten, it moves into the next decade. -/
def Decimal.leading (negative : Bool) (places m : Nat) : Decimal :=
  let e := decade m quantaPerUnit
  let mantissa := roundToUnit (e - places) m quantaPerUnit
  if m = 0 then ⟨negative, 0, 0 - places⟩
  else if mantissa < 10 ^ (places + 1) then ⟨negative, mantissa, e - places⟩
  else ⟨negative, 10 ^ places, e + 1 - places⟩

/-- **An exponent form is read** as the decimal number that it is. -/
theorem read?_scientific (places : Nat) {x : Binary64} (hx : x.isFinite = true) :
    Numeral.read? (x.scientific places) =
      some (Decimal.leading x.isNegative places x.magnitude).toBinary64 := by
  have hread (negative : Bool) (units : Nat) (e : Int) :
      Numeral.read? (signText negative ++ mantissaText places units ++ exponentText e) =
        some (Decimal.toBinary64 ⟨negative, units, e - places⟩) := by
    obtain ⟨d, rest, hcons, hd⟩ := exists_placePoint_eq_cons places units
    have hdecimal := Numeral.decimal?_placePoint negative places units e
    rw [hcons, List.cons_append] at hdecimal
    rw [mantissaText, hcons, List.append_assoc, List.cons_append, Numeral.read?_signText_cons hd,
      hdecimal]
    rfl
  cases x with
  | nan => cases hx
  | infinite negative => cases hx
  | finite negative ordinal =>
    change Numeral.read? (Binary64.scientific places (.finite negative ordinal)) =
      some (Decimal.leading negative places (magnitudeOf ordinal)).toBinary64
    unfold Binary64.scientific Decimal.leading
    dsimp only
    by_cases hzero : magnitudeOf ordinal = 0
    · rw [if_pos hzero, if_pos hzero]
      exact hread _ _ _
    rw [if_neg hzero, if_neg hzero]
    generalize decade (magnitudeOf ordinal) quantaPerUnit = e
    generalize roundToUnit (e - places) (magnitudeOf ordinal) quantaPerUnit = mantissa
    by_cases hkept : mantissa < 10 ^ (places + 1)
    · rw [if_pos hkept, if_pos hkept]
      exact hread _ _ _
    · rw [if_neg hkept, if_neg hkept]
      exact hread _ _ _

/-- On the display an exponent form has a value if it is finite. -/
theorem readDisplay?_scientific (places : Nat) {x : Binary64} (hx : x.isFinite = true) :
    readDisplay? (x.scientific places) =
      (some (Decimal.leading x.isNegative places x.magnitude).toBinary64).filter
        Binary64.isFinite := by
  have hblanks : ∀ c ∈ x.scientific places, Text.isBlank c = false := fun c hc =>
    isBlank_of_isWrittenChar (isWrittenChar_of_mem_scientific hc)
  have hplain : separator ∉ x.scientific places :=
    separator_notMem_of_isWrittenChar fun _ hc => isWrittenChar_of_mem_scientific hc
  rw [readDisplay?, Text.trim_of_all hblanks, eraseSeparators_of_notMem hplain,
    read?_scientific places hx]

/-! ## Rounding beyond the finite range -/

/-- A magnitude rounded to its leading digit and some more places, as one in the greatest decade
is. -/
def roundedMagnitude (places m : Nat) : Nat :=
  roundEven m (quantaPerUnit * 10 ^ (greatestDecade - places)) * 10 ^ (greatestDecade - places)

variable {places m : Nat}

theorem ten_pow_mul_ten_pow (hplaces : places ≤ greatestDecade) :
    10 ^ places * 10 ^ (greatestDecade - places) = 10 ^ greatestDecade := by
  rw [← Nat.pow_add, Nat.add_sub_cancel' hplaces]

/-- Below the greatest decade a magnitude is rounded to the begin of this decade at most. -/
theorem roundedMagnitude_lt (hplaces : places ≤ greatestDecade)
    (h : m < 10 ^ greatestDecade * quantaPerUnit) :
    roundedMagnitude places m < overflowThreshold := by
  have hround : roundEven m (quantaPerUnit * 10 ^ (greatestDecade - places)) ≤ 10 ^ places := by
    refine roundEven_le_of_le (Nat.mul_pos quantaPerUnit_pos (ten_pow_pos _)) ?_
    rw [Nat.mul_left_comm, ten_pow_mul_ten_pow hplaces, Nat.mul_comm]
    exact h.le
  calc roundedMagnitude places m ≤ 10 ^ places * 10 ^ (greatestDecade - places) :=
        Nat.mul_le_mul_right _ hround
    _ = 10 ^ greatestDecade := ten_pow_mul_ten_pow hplaces
    _ < overflowThreshold := ten_pow_greatestDecade_lt

namespace Decimal

/-- A decimal number up to the greatest decade is finite. -/
theorem isFinite_toBinary64_of_le {d : Decimal} (digits : Nat) (h : d.coefficient ≤ 10 ^ digits)
    (hexponent : digits + d.exponent ≤ greatestDecade) : d.toBinary64.isFinite = true := by
  rw [isFinite_toBinary64_iff]
  calc d.coefficient * 10 ^ d.exponent.toNat
      ≤ 10 ^ digits * 10 ^ d.exponent.toNat := Nat.mul_le_mul_right _ h
    _ = 10 ^ (digits + d.exponent.toNat) := (Nat.pow_add ..).symm
    _ ≤ 10 ^ (greatestDecade + (-d.exponent).toNat) :=
        Nat.pow_le_pow_right (by decide) (by omega)
    _ = 10 ^ greatestDecade * 10 ^ (-d.exponent).toNat := Nat.pow_add ..
    _ < overflowThreshold * 10 ^ (-d.exponent).toNat :=
        Nat.mul_lt_mul_of_pos_right ten_pow_greatestDecade_lt (ten_pow_pos _)

/-- Below the greatest decade an exponent form is finite. -/
theorem isFinite_leading_of_lt (negative : Bool) (h : m < 10 ^ greatestDecade * quantaPerUnit) :
    (leading negative places m).toBinary64.isFinite = true := by
  have hdecade : decade m quantaPerUnit ≤ (greatestDecade : Int) - 1 :=
    (decade_le_iff (by decide)).mpr h
  unfold leading
  dsimp only
  generalize decade m quantaPerUnit = e at hdecade
  generalize roundToUnit (e - places) m quantaPerUnit = mantissa
  by_cases hzero : m = 0
  · rw [if_pos hzero]
    exact isFinite_toBinary64_of_le 0 (Nat.zero_le _) (by dsimp only; omega)
  rw [if_neg hzero]
  by_cases hkept : mantissa < 10 ^ (places + 1)
  · rw [if_pos hkept]
    exact isFinite_toBinary64_of_le (places + 1) hkept.le (by dsimp only; omega)
  · rw [if_neg hkept]
    exact isFinite_toBinary64_of_le places (Nat.le_refl _) (by dsimp only; omega)

/-- A finite magnitude that is not below the greatest decade lies in it. -/
theorem decade_eq_greatestDecade (hlow : ¬ m < 10 ^ greatestDecade * quantaPerUnit)
    (hm : m < overflowThreshold * quantaPerUnit) : decade m quantaPerUnit = greatestDecade := by
  have hleast : ¬ decade m quantaPerUnit ≤ (greatestDecade : Int) - 1 := fun hle =>
    hlow ((decade_le_iff (by decide)).mp hle)
  have hmost : decade m quantaPerUnit ≤ ((greatestDecade + 1 : Nat) : Int) - 1 := by
    refine (decade_le_iff (Nat.succ_pos _)).mpr (hm.trans_le (Nat.mul_le_mul_right _ ?_))
    rw [Nat.pow_succ]
    have := greatestFinite_bounds.2.2
    omega
  omega

/-- No finite magnitude is as large as twice the first of its decade, so in the greatest decade the
rounding has no digit more. -/
theorem roundEven_lt_of_lt_overflowThreshold (hplaces : places ≤ greatestDecade)
    (hm : m < overflowThreshold * quantaPerUnit) :
    roundEven m (quantaPerUnit * 10 ^ (greatestDecade - places)) < 10 ^ (places + 1) := by
  have hround : roundEven m (quantaPerUnit * 10 ^ (greatestDecade - places)) ≤
      2 * 10 ^ places := by
    refine roundEven_le_of_le (Nat.mul_pos quantaPerUnit_pos (ten_pow_pos _)) ?_
    calc m ≤ 2 * 10 ^ greatestDecade * quantaPerUnit :=
          hm.le.trans (Nat.mul_le_mul_right _ greatestFinite_bounds.2.2.le)
      _ = 2 * 10 ^ places * (quantaPerUnit * 10 ^ (greatestDecade - places)) := by
          rw [← ten_pow_mul_ten_pow hplaces]
          ring
  have hpos := ten_pow_pos places
  rw [Nat.pow_succ]
  omega

/-- **Which exponent forms are finite**: below the greatest decade all of them, and in it those
whose rounding stays below the threshold. -/
theorem isFinite_leading_iff (negative : Bool) (hplaces : places ≤ greatestDecade)
    (hm : m < overflowThreshold * quantaPerUnit) :
    (leading negative places m).toBinary64.isFinite = true ↔
      roundedMagnitude places m < overflowThreshold := by
  by_cases hlow : m < 10 ^ greatestDecade * quantaPerUnit
  · exact iff_of_true (isFinite_leading_of_lt negative hlow) (roundedMagnitude_lt hplaces hlow)
  have hzero : m ≠ 0 := by
    rintro rfl
    exact hlow (Nat.mul_pos (ten_pow_pos _) quantaPerUnit_pos)
  have hunit : (greatestDecade : Int) - places = ((greatestDecade - places : Nat) : Int) :=
    (Int.ofNat_sub hplaces).symm
  have hmantissa : roundToUnit (greatestDecade - places) m quantaPerUnit =
      roundEven m (quantaPerUnit * 10 ^ (greatestDecade - places)) := by
    rw [hunit, roundToUnit, if_pos (Int.natCast_nonneg _), Int.toNat_natCast]
  have hleading : leading negative places m =
      ⟨negative, roundEven m (quantaPerUnit * 10 ^ (greatestDecade - places)),
        ((greatestDecade - places : Nat) : Int)⟩ := by
    unfold leading
    dsimp only
    rw [decade_eq_greatestDecade hlow hm, hmantissa, if_neg hzero,
      if_pos (roundEven_lt_of_lt_overflowThreshold hplaces hm), hunit]
  -- written with an exponent that is not negative, it is the whole number it is rounded to
  rw [hleading, isFinite_toBinary64_iff]
  dsimp only
  rw [Int.toNat_natCast, Int.toNat_of_nonpos (by omega), Nat.pow_zero, Nat.mul_one]
  rfl

end Decimal

/-! ## Literals -/

theorem point_notMem_signText (negative : Bool) : '.' ∉ signText negative := by
  cases negative <;> decide

theorem exists_read?_dropZeroSign {t : Text} {v : Binary64} (h : Numeral.read? t = some v)
    (hv : v.isFinite = true) :
    ∃ w, Numeral.read? (dropZeroSign t) = some w ∧ w.isFinite = true := by
  unfold dropZeroSign
  split
  · exact ⟨.zero false, by decide, rfl⟩
  · exact ⟨v, h, hv⟩

/-- Trimming the zeros of a number of units below the threshold keeps it there. -/
theorem exists_read?_dropFractionZeros (negative : Bool) {units : Nat}
    (h : units < overflowThreshold * 10 ^ places) :
    ∃ v, Numeral.read? (dropFractionZeros (signText negative ++ placePoint places units)) = some v ∧
      v.isFinite = true := by
  have hfinite {digits length : Nat} (hdigits : digits < overflowThreshold * 10 ^ length) :
      (Decimal.toBinary64 ⟨negative, digits, -(length : Int)⟩).isFinite = true := by
    rw [Decimal.isFinite_toBinary64_iff]
    dsimp only
    rwa [Int.toNat_of_nonpos (by omega), Int.neg_neg, Int.toNat_natCast, Nat.pow_zero, Nat.mul_one]
  rcases Nat.eq_zero_or_pos places with rfl | hpos
  · -- without places there is no point, so no zero is dropped
    have hdigits : ∀ c ∈ digitsOf units, c.isDigit = true := fun c => isDigit_of_mem_digitsOf
    have hne : digitsOf units ≠ [] := Nat.toDigits_ne_nil
    have hread := read?_trimmed hne hdigits DisplayNumber.isDigit_of_mem_nil negative
    rw [if_pos rfl, List.append_nil, wholeOf_digitsOf] at hread
    have hpoint : '.' ∉ signText negative ++ digitsOf units := by
      intro hmem
      rcases List.mem_append.mp hmem with hmem | hmem
      · exact point_notMem_signText negative hmem
      · exact absurd (hdigits '.' hmem) (by decide)
    have hwhole : (Decimal.toBinary64 ⟨negative, units, -((0 : Nat) : Int)⟩).isFinite = true :=
      hfinite h
    rw [placePoint, if_pos rfl, dropFractionZeros, if_neg hpoint]
    exact exists_read?_dropZeroSign hread hwhole
  · obtain ⟨whole, fraction, heq, hwhole, hw, hf, hlength, hunits⟩ := placePoint_eq hpos units
    obtain ⟨kept, dropped, hkept, htrim⟩ := dropFractionZeros_point hwhole hw hf negative
    have hk : ∀ c ∈ kept, c.isDigit = true := fun c hc =>
      hf c (by rw [hkept]; exact List.mem_append_left _ hc)
    have hplaces : places = kept.length + dropped := by
      rw [← hlength, hkept, List.length_append, List.length_replicate]
    rw [heq, htrim]
    refine exists_read?_dropZeroSign (read?_trimmed hwhole hw hk negative) (hfinite ?_)
    -- dropping zeros divides the number of units and the number of units in one alike
    rw [← hunits, hkept, ← List.append_assoc, wholeOf_append_replicate, hplaces, Nat.pow_add,
      ← Nat.mul_assoc] at h
    exact Nat.lt_of_mul_lt_mul_right h

/-- **A literal is finite**: the digits of a finite value are below the threshold. -/
theorem exists_displayNumber_literal (style : Style) {x : Binary64} (hx : x.isFinite = true) :
    ∃ n : DisplayNumber, style.literal x = n.text ∧ n.value.isFinite = true := by
  obtain ⟨n, hn⟩ : ∃ n : DisplayNumber, style.literal x = n.text := exists_displayNumber hx
  have hfinite := Binary64.isFinite_roundTo style.places hx
  have hread := n.read?_text
  rw [← hn] at hread
  refine ⟨n, hn, ?_⟩
  unfold Style.literal at hread
  generalize x.roundTo style.places = rounded at hread hfinite
  cases rounded with
  | nan => cases hfinite
  | infinite negative => cases hfinite
  | finite negative ordinal =>
    have hunits : roundEven (magnitudeOf ordinal * 10 ^ style.places) quantaPerUnit <
        overflowThreshold * 10 ^ style.places := by
      have hgreatest : magnitudeOf ordinal ≤ greatestFinite * quantaPerUnit :=
        magnitude_le_greatest (.finite negative ordinal)
      have hround : roundEven (magnitudeOf ordinal * 10 ^ style.places) quantaPerUnit ≤
          greatestFinite * 10 ^ style.places := by
        refine roundEven_le_of_le quantaPerUnit_pos ?_
        rw [Nat.mul_right_comm]
        exact Nat.mul_le_mul_right _ hgreatest
      exact hround.trans_lt
        (Nat.mul_lt_mul_of_pos_right greatestFinite_bounds.2.1 (ten_pow_pos _))
    obtain ⟨v, hv, hfinite⟩ := exists_read?_dropFractionZeros negative hunits
    rw [Option.some.inj (hread.symm.trans hv)]
    exact hfinite

/-- An accepted value is written as a finite number. -/
theorem exists_displayNumber_finite_of_accept {style : Style} {v r : Binary64}
    (hr : v.accept style.places = .ok r) :
    ∃ n : DisplayNumber, eraseSeparators (style.write r) = n.text ∧ n.value.isFinite = true := by
  rw [eraseSeparators_write_eq_literal (Binary64.exceedsCeiling_roundTo_of_accept hr)]
  exact exists_displayNumber_literal style (Binary64.isFinite_of_accept hr)

/-! ## Written values -/

namespace Style

variable {style : Style} {x : Binary64}

/-- Whether a value is rounded beyond the finite range when it is written with an exponent. -/
def Overruns (style : Style) (x : Binary64) : Prop :=
  style.scientific = true ∧
    overflowThreshold ≤ roundedMagnitude (style.places - 1) (x.roundTo style.places).magnitude

instance (style : Style) (x : Binary64) : Decidable (style.Overruns x) :=
  inferInstanceAs (Decidable (_ ∧ _))

/-- Whether a value is written with an exponent. -/
def isWide (style : Style) (x : Binary64) : Bool :=
  style.scientific && (x.roundTo style.places).isFinite && !(x.roundTo style.places).isZero &&
    decide ((digitCeiling : Int) < (x.roundTo style.places).digitsBeforePoint)

theorem write_of_isWide (h : style.isWide x = true) :
    style.write x = (x.roundTo style.places).scientific (style.places - 1) := if_pos h

theorem eraseSeparators_write_of_not_isWide (h : style.isWide x = false) :
    eraseSeparators (style.write x) = style.literal x := by
  rw [eraseSeparators_write]
  exact if_neg (Bool.eq_false_iff.mp h)

/-- Only a value in the greatest decade is rounded beyond the range; it is wide. -/
theorem Overruns.isWide (h : style.Overruns x) (hplaces : style.places - 1 ≤ greatestDecade)
    (hx : x.isFinite = true) : style.isWide x = true := by
  obtain ⟨hscientific, hover⟩ := h
  have hfinite := Binary64.isFinite_roundTo style.places hx
  have hexceeds : (x.roundTo style.places).exceedsCeiling = true := by
    by_contra hceiling
    have hsmall := Binary64.magnitude_lt_of_exceedsCeiling (Bool.eq_false_iff.mpr hceiling)
    refine absurd hover (Nat.not_le.mpr (roundedMagnitude_lt hplaces (hsmall.trans_le ?_)))
    exact Nat.mul_le_mul_right _ (Nat.pow_le_pow_right (by decide) (by decide))
  unfold Style.isWide
  unfold Binary64.exceedsCeiling at hexceeds
  rw [hscientific, hfinite]
  rw [hfinite] at hexceeds
  exact hexceeds

/-- In digits every finite value can be read. -/
theorem isSome_readDisplay?_of_not_isWide (hwide : style.isWide x = false)
    (hx : x.isFinite = true) : (readDisplay? (style.write x)).isSome = true := by
  obtain ⟨n, hn, hvalue⟩ := exists_displayNumber_literal style hx
  rw [← (isTidy_write style x).readDisplay?_eraseSeparators,
    eraseSeparators_write_of_not_isWide hwide, hn]
  exact n.isSome_readDisplay?_text hvalue

theorem isSome_readDisplay?_of_accept {v : Binary64} (hx : v.accept style.places = .ok x) :
    (readDisplay? (style.write x)).isSome = true := by
  obtain ⟨n, hn, hvalue⟩ := exists_displayNumber_finite_of_accept hx
  rw [← (isTidy_write style x).readDisplay?_eraseSeparators, hn]
  exact n.isSome_readDisplay?_text hvalue

/-- With an exponent it can be read unless it is rounded beyond the range. -/
theorem isSome_readDisplay?_of_isWide_iff (hwide : style.isWide x = true)
    (hplaces : style.places - 1 ≤ greatestDecade) (hx : x.isFinite = true) :
    (readDisplay? (style.write x)).isSome = true ↔ ¬ style.Overruns x := by
  have hscientific : style.scientific = true := by
    simp only [isWide, Bool.and_eq_true] at hwide
    exact hwide.1.1.1
  have hiff := Decimal.isFinite_leading_iff (x.roundTo style.places).isNegative hplaces
    (magnitude_lt_overflowThreshold (x.roundTo style.places))
  rw [write_of_isWide hwide, readDisplay?_scientific _ (Binary64.isFinite_roundTo _ hx),
    Option.filter_some, Overruns, not_and, forall_prop_of_true hscientific, Nat.not_le, ← hiff]
  split
  · exact iff_of_true rfl ‹_›
  · exact iff_of_false Bool.false_ne_true ‹_›

/-- **What can be read once it is written**: every finite value that is not rounded beyond the
range. -/
theorem isSome_readDisplay?_write_iff (hplaces : style.places - 1 ≤ greatestDecade)
    (hx : x.isFinite = true) :
    (readDisplay? (style.write x)).isSome = true ↔ ¬ style.Overruns x := by
  cases hwide : style.isWide x with
  | true => exact isSome_readDisplay?_of_isWide_iff hwide hplaces hx
  | false =>
    refine iff_of_true (isSome_readDisplay?_of_not_isWide hwide hx) fun hover => ?_
    rw [hover.isWide hplaces hx] at hwide
    cases hwide

end Style

end Keypad
