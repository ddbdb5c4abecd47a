import Keypad.Proofs.Display.NumberValue

/-!
# The shortest text of a number

What is left of a number of units when the zeros that end its fraction are dropped, and the point
with the last of them, is the shortest text in digits of that number.  Any other text has as many
digits before the point at least, and as many behind it: a last place other than zero cannot be
done without.

## Main definitions

* `DisplayNumber.Denotes`: a number without a sign and the quotient it stands for
* `DisplayNumber.IsTrimmed`: a number without a needless zero or point
* `IsShortestText`: the shortest of the texts of a quotient

## Main results

* `DisplayNumber.IsTrimmed.length_text_le`: a trimmed number is written the shortest
* `isShortestText_dropFractionZeros_iff`: which quotient a trimmed number of units is the text of
-/

namespace Keypad

variable {num den : Nat}

/-- A single digit other than zero does not denote a multiple of ten. -/
theorem eq_zero_of_wholeOf_mod_ten {t : Text} {c : Char} (hc : c.isDigit = true)
    (h : wholeOf (t ++ [c]) % 10 = 0) : c = '0' := by
  have hdigit : wholeOf [c] = c.toNat - 48 := by simp [wholeOf, Nat.ofDigitChars_cons]
  rw [wholeOf_append, List.length_singleton, Nat.pow_one, Nat.mul_add_mod_self_right, hdigit] at h
  simp only [Char.isDigit, Bool.and_eq_true, decide_eq_true_eq, ge_iff_le] at hc
  have hlow : 48 ≤ c.toNat := hc.1
  have hhigh : c.toNat ≤ 57 := hc.2
  have hcode : c.toNat = '0'.toNat := by
    show c.toNat = 48
    omega
  exact Char.toNat_inj.mp hcode

/-- A number has no fewer digits than it needs. -/
theorem length_digitsOf_wholeOf_le {digits : Text} (hne : digits ≠ [])
    (h : ∀ c ∈ digits, c.isDigit = true) : (digitsOf (wholeOf digits)).length ≤ digits.length :=
  (Nat.length_toDigits_le_iff (by decide) (List.length_pos_of_ne_nil hne)).mpr (wholeOf_lt h)

namespace DisplayNumber

/-- The number of places. -/
def decimals (d : DisplayNumber) : Nat := (d.places?.getD []).length

/-- A number without a sign denotes a quotient. -/
def Denotes (d : DisplayNumber) (num den : Nat) : Prop :=
  d.negative = false ∧ wholeOf d.digits * den = num * 10 ^ d.decimals

/-- A number without a needless zero or point. -/
structure IsTrimmed (d : DisplayNumber) : Prop where
  whole : d.whole = digitsOf (wholeOf d.whole)
  point : d.places? ≠ some []
  zero : ∀ init, d.places? ≠ some (init ++ ['0'])

variable {d other : DisplayNumber}

/-- Without a point only the whole part can have needless zeros. -/
theorem isTrimmed_of_none (hplaces : d.places? = none)
    (hwhole : d.whole = digitsOf (wholeOf d.whole)) : d.IsTrimmed where
  whole := hwhole
  point := by
    rw [hplaces]
    exact (Option.some_ne_none []).symm
  zero init := by
    rw [hplaces]
    exact (Option.some_ne_none (init ++ ['0'])).symm

theorem Denotes.text_eq (h : d.Denotes num den) : d.text = d.unsigned := by
  rw [text, h.1]
  rfl

theorem wholeOf_digits (d : DisplayNumber) :
    wholeOf d.digits = wholeOf d.whole * 10 ^ d.decimals + wholeOf (d.places?.getD []) :=
  wholeOf_append _ _

/-- The digits before the point denote the whole part. -/
theorem Denotes.wholeOf_whole (h : d.Denotes num den) (hden : 0 < den) :
    wholeOf d.whole = num / den := by
  have hvalue := h.2
  have hplaces : wholeOf (d.places?.getD []) < 10 ^ d.decimals := wholeOf_lt d.places_digits
  have hquotient : wholeOf d.digits / 10 ^ d.decimals = num / den := by
    rw [← Nat.mul_div_mul_right (wholeOf d.digits) (10 ^ d.decimals) hden, hvalue,
      Nat.mul_comm (10 ^ d.decimals) den, Nat.mul_div_mul_right _ _ (ten_pow_pos _)]
  rw [← hquotient, wholeOf_digits, Nat.add_comm,
    Nat.add_mul_div_right _ _ (ten_pow_pos _), Nat.div_eq_of_lt hplaces, Nat.zero_add]

/-- A last place other than zero cannot be done without. -/
theorem IsTrimmed.decimals_le (htrimmed : d.IsTrimmed) (h : d.Denotes num den)
    (hother : other.Denotes num den) (hden : 0 < den) : d.decimals ≤ other.decimals := by
  by_contra hlt
  have hmore : d.decimals = other.decimals + (d.decimals - other.decimals - 1) + 1 := by omega
  -- with fewer places the digits denote a multiple of ten
  have hmultiple : wholeOf d.digits =
      wholeOf other.digits * 10 ^ (d.decimals - other.decimals - 1) * 10 := by
    refine Nat.eq_of_mul_eq_mul_right hden ?_
    calc wholeOf d.digits * den = num * 10 ^ d.decimals := h.2
      _ = num * 10 ^ other.decimals * (10 ^ (d.decimals - other.decimals - 1) * 10) := by
          conv_lhs => rw [hmore, Nat.pow_succ, Nat.pow_add]
          ring
      _ = wholeOf other.digits * den * (10 ^ (d.decimals - other.decimals - 1) * 10) := by
          rw [hother.2]
      _ = _ := by ring
  have hlast := d.places_digits
  cases hplaces : d.places? with
  | none => simp [decimals, hplaces] at hlt
  | some places =>
    rcases List.eq_nil_or_concat' places with rfl | ⟨init, c, rfl⟩
    · exact htrimmed.point hplaces
    · rw [hplaces, Option.getD_some] at hlast
      have hdigits : d.digits = d.whole ++ init ++ [c] := by simp [digits, hplaces]
      rw [hdigits] at hmultiple
      have hzero := eq_zero_of_wholeOf_mod_ten (hlast c (by simp))
        (hmultiple ▸ Nat.mul_mod_left _ 10)
      exact htrimmed.zero init (hzero ▸ hplaces)

/-- **A trimmed number is written the shortest.** -/
theorem IsTrimmed.length_text_le (htrimmed : d.IsTrimmed) (h : d.Denotes num den)
    (hother : other.Denotes num den) (hden : 0 < den) : d.text.length ≤ other.text.length := by
  have hwhole : d.whole.length ≤ other.whole.length := by
    rw [htrimmed.whole, h.wholeOf_whole hden, ← hother.wholeOf_whole hden]
    exact length_digitsOf_wholeOf_le other.whole_ne_nil other.whole_digits
  have hdecimals := htrimmed.decimals_le h hother hden
  rw [h.text_eq, hother.text_eq, unsigned, unsigned, List.length_append, List.length_append]
  refine Nat.add_le_add hwhole ?_
  unfold decimals at hdecimals
  cases hplaces : d.places? with
  | none => exact Nat.zero_le _
  | some places =>
    have hne : places ≠ [] := fun hnil => htrimmed.point (hnil ▸ hplaces)
    rw [hplaces, Option.getD_some] at hdecimals
    cases hothers : other.places? with
    | none =>
      rw [hothers, Option.getD_none, List.length_nil, Nat.le_zero, List.length_eq_zero_iff]
        at hdecimals
      exact absurd hdecimals hne
    | some places' =>
      rw [hothers, Option.getD_some] at hdecimals
      exact Nat.succ_le_succ hdecimals

/-- A text denotes one quotient with a denominator. -/
theorem Denotes.num_eq {num' : Nat} (h : d.Denotes num den) (hother : other.Denotes num' den)
    (htext : d.text = other.text) : num = num' := by
  have hunsigned : d.unsigned = other.unsigned := by rw [← h.text_eq, htext, hother.text_eq]
  have hdecimal := d.decimal?_unsigned
  rw [hunsigned, h.1, ← hother.1, other.decimal?_unsigned, Option.some.injEq,
    Decimal.mk.injEq] at hdecimal
  obtain ⟨-, hdigits, hexponent⟩ := hdecimal
  have hdecimals : d.decimals = other.decimals := by
    unfold decimals
    omega
  refine Nat.eq_of_mul_eq_mul_right (ten_pow_pos d.decimals) ?_
  rw [← h.2, ← hdigits, hother.2, hdecimals]

end DisplayNumber

/-- The shortest text in digits of a quotient. -/
structure IsShortestText (t : Text) (num den : Nat) : Prop where
  denotes : ∃ d : DisplayNumber, t = d.text ∧ d.Denotes num den
  shortest : ∀ d : DisplayNumber, d.Denotes num den → t.length ≤ d.text.length

/-! ## Numbers of units -/

/-- What is left of a number of units, with either sign, is trimmed and denotes as many units; of a
zero the sign is dropped as well. -/
theorem exists_isTrimmed_eq (negative : Bool) (places units : Nat) :
    ∃ d : DisplayNumber, dropFractionZeros (signText negative ++ placePoint places units) =
        dropZeroSign d.text ∧ d.negative = negative ∧ d.IsTrimmed ∧ d.decimals ≤ places ∧
      wholeOf d.digits * 10 ^ places = units * 10 ^ d.decimals := by
  rcases Nat.eq_zero_or_pos places with rfl | hpos
  · have hdigits : ∀ c ∈ digitsOf units, c.isDigit = true := fun c => isDigit_of_mem_digitsOf
    refine ⟨⟨negative, digitsOf units, none, Nat.toDigits_ne_nil, hdigits,
      DisplayNumber.isDigit_of_mem_nil⟩, ?_, rfl, DisplayNumber.isTrimmed_of_none rfl ?_,
      Nat.le_refl 0, ?_⟩
    · rw [dropFractionZeros_of_no_places, DisplayNumber.text, DisplayNumber.unsigned,
        List.append_nil]
    · rw [wholeOf_digitsOf]
    · simp [DisplayNumber.digits, DisplayNumber.decimals, wholeOf_digitsOf]
  obtain ⟨fraction, hplaced, hfraction, hlength, hunits⟩ := placePoint_eq_digitsOf hpos units
  generalize hwhole : digitsOf (units / 10 ^ places) = whole at hplaced hunits
  have hne : whole ≠ [] := hwhole ▸ Nat.toDigits_ne_nil
  have hw : ∀ c ∈ whole, c.isDigit = true := hwhole ▸ fun c => isDigit_of_mem_digitsOf
  have hcanonical : whole = digitsOf (wholeOf whole) := by rw [← hwhole, wholeOf_digitsOf]
  have htrim := dropFractionZeros_eq hne hw hfraction negative
  obtain ⟨zeros, hzeros⟩ := exists_eq_append_replicate '0' fraction
  have hlast : ∀ init, Text.trimEndBy (· == '0') fraction ≠ init ++ ['0'] :=
    trimEndBy_ne_concat rfl fraction
  rw [hplaced]
  generalize Text.trimEndBy (· == '0') fraction = kept at htrim hzeros hlast
  have hk : ∀ c ∈ kept, c.isDigit = true := fun c hc =>
    hfraction c (by rw [hzeros]; exact List.mem_append_left _ hc)
  -- the zeros that are dropped are as many as the places that are lost
  have hplaces : places = kept.length + zeros := by rw [← hlength, hzeros]; simp
  have hvalue : wholeOf (whole ++ kept) * 10 ^ places = units * 10 ^ kept.length := by
    rw [← hunits, hzeros, ← List.append_assoc, wholeOf_append_replicate, hplaces, Nat.pow_add]
    ring
  by_cases hnil : kept = []
  · subst hnil
    refine ⟨⟨negative, whole, none, hne, hw, DisplayNumber.isDigit_of_mem_nil⟩, ?_, rfl,
      DisplayNumber.isTrimmed_of_none rfl hcanonical, Nat.zero_le _, hvalue⟩
    rw [htrim, if_pos rfl, DisplayNumber.text, DisplayNumber.unsigned, List.append_nil]
  · refine ⟨⟨negative, whole, some kept, hne, hw, hk⟩, ?_, rfl,
      ⟨hcanonical, fun h => hnil (Option.some.inj h), fun init h => hlast init (Option.some.inj h)⟩,
      hplaces ▸ Nat.le_add_right _ _, hvalue⟩
    rw [htrim, if_neg hnil]
    rfl

theorem DisplayNumber.dropZeroSign_text {d : DisplayNumber} (h : d.negative = false) :
    dropZeroSign d.text = d.text := by
  obtain ⟨first, rest, hcons, hfirst⟩ := d.exists_unsigned_eq_cons
  have htext : d.text = first :: rest := by rw [text, h, ← hcons]; rfl
  refine if_neg ?_
  rw [htext]
  rintro (hnil | hzero)
  · cases hnil
  · exact ne_of_kind hfirst rfl (List.cons.inj hzero).1

theorem exists_isTrimmed_dropFractionZeros (places units : Nat) :
    ∃ d : DisplayNumber, dropFractionZeros (placePoint places units) = d.text ∧ d.IsTrimmed ∧
      d.Denotes units (10 ^ places) := by
  obtain ⟨d, htext, hsign, htrimmed, -, hvalue⟩ := exists_isTrimmed_eq false places units
  exact ⟨d, htext.trans (DisplayNumber.dropZeroSign_text hsign), htrimmed, hsign, hvalue⟩

/-- **The shortest text of a number of units**, and of no other number. -/
theorem isShortestText_dropFractionZeros_iff (places units k : Nat) :
    IsShortestText (dropFractionZeros (placePoint places units)) k (10 ^ places) ↔ units = k := by
  obtain ⟨d, htext, htrimmed, hdenotes⟩ := exists_isTrimmed_dropFractionZeros places units
  constructor
  · rintro ⟨⟨other, hother, hk⟩, -⟩
    exact hdenotes.num_eq hk (htext.symm.trans hother)
  · rintro rfl
    refine ⟨⟨d, htext, hdenotes⟩, fun other hother => ?_⟩
    rw [htext]
    exact htrimmed.length_text_le hdenotes hother (ten_pow_pos places)

end Keypad
