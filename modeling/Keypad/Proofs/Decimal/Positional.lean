import Keypad.Proofs.Display.NumberValue
import Keypad.Settings.File

/-!
# Numbers of a settings file

A finite value is kept in a file as its shortest decimal, with a point and without an exponent.
However many zeros that takes, the digits are a number that is read as the same value, down to the
sign of a zero.

## Main definitions

* `DisplayNumber.IsReal`: digits on both sides of a point, without a needless zero in front

## Main results

* `toBinary64_of_nonneg`: the value of a decimal with zeros up to the point
* `exists_realText`: the text of a finite value denotes this value
-/

namespace Keypad

/-- A number with digits on both sides of its point and no needless zero in front. -/
structure DisplayNumber.IsReal (n : DisplayNumber) : Prop where
  whole_eq : ∃ k, n.whole = digitsOf k
  places_eq : ∃ places, n.places? = some places ∧ places ≠ []

namespace Decimal

variable {d : Decimal}

/-- A finite decimal number without a fraction is the nearest value to its quotient. -/
theorem toBinary64_of_nonneg (hexponent : 0 ≤ d.exponent) (hfinite : d.toBinary64.isFinite = true) :
    d.toBinary64 =
      .ofQuotient d.negative (d.coefficient * 10 ^ d.exponent.toNat * quantaPerUnit) 1 := by
  unfold toBinary64 at hfinite ⊢
  by_cases hzero : d.coefficient = 0
  · rw [if_pos hzero, hzero, Nat.zero_mul, Nat.zero_mul, ofQuotient_zero _ Nat.one_pos]
  · rw [if_neg hzero, if_pos hexponent] at hfinite ⊢
    by_cases hlarge : exponentBound ≤ d.exponent.toNat
    · rw [if_pos hlarge] at hfinite
      cases hfinite
    · rw [if_neg hlarge]

/-- A decimal without a fraction gets a point and one zero behind it. -/
theorem exists_positional_of_nonneg (hexponent : 0 ≤ d.exponent)
    (hfinite : d.toBinary64.isFinite = true) :
    '.' ∉ d.positional ∧ ∃ n : DisplayNumber, n.IsReal ∧ d.positional ++ ".0".toList = n.text ∧
      n.value = d.toBinary64 := by
  have hpositional : d.positional =
      signText d.negative ++ digitsOf (d.coefficient * 10 ^ d.exponent.toNat) := by
    rw [positional, if_pos hexponent]
  have hdigits : ∀ c ∈ digitsOf (d.coefficient * 10 ^ d.exponent.toNat), c.isDigit = true :=
    fun c => isDigit_of_mem_digitsOf
  constructor
  · rw [hpositional, List.mem_append, not_or]
    refine ⟨fun hmem => ?_, fun hmem => absurd (hdigits '.' hmem) (by decide)⟩
    cases hsign : d.negative with
    | true => exact absurd (List.mem_singleton.mp (hsign ▸ hmem)) (by decide)
    | false => exact absurd (hsign ▸ hmem) List.not_mem_nil
  · refine ⟨⟨d.negative, digitsOf (d.coefficient * 10 ^ d.exponent.toNat), some ['0'],
      Nat.toDigits_ne_nil, hdigits, DisplayNumber.isDigit_of_mem_singleton rfl⟩,
      ⟨⟨_, rfl⟩, ['0'], rfl, List.cons_ne_nil _ _⟩, ?_, ?_⟩
    · rw [hpositional, List.append_assoc]
      rfl
    · have hunits : wholeOf (digitsOf (d.coefficient * 10 ^ d.exponent.toNat) ++ ['0']) =
          d.coefficient * 10 ^ d.exponent.toNat * 10 := by
        rw [wholeOf_append, wholeOf_digitsOf]
        rfl
      calc Binary64.ofQuotient d.negative
            (wholeOf (digitsOf (d.coefficient * 10 ^ d.exponent.toNat) ++ ['0']) * quantaPerUnit)
              (10 ^ 1)
          = .ofQuotient d.negative
              (d.coefficient * 10 ^ d.exponent.toNat * quantaPerUnit * 10) (1 * 10) := by
            rw [hunits, Nat.mul_right_comm, Nat.pow_one, Nat.one_mul]
        _ = .ofQuotient d.negative
              (d.coefficient * 10 ^ d.exponent.toNat * quantaPerUnit) 1 :=
            Binary64.ofQuotient_mul_mul _ _ _ (by decide)
        _ = d.toBinary64 := (toBinary64_of_nonneg hexponent hfinite).symm

/-- A decimal with a fraction has a point of its own. -/
theorem exists_positional_of_neg (hexponent : d.exponent < 0) :
    '.' ∈ d.positional ∧ ∃ n : DisplayNumber, n.IsReal ∧ d.positional = n.text ∧
      n.value = d.toBinary64 := by
  have hplaces : 1 ≤ (-d.exponent).toNat := by omega
  obtain ⟨fraction, heq, hfraction, hlength, hunits⟩ :=
    placePoint_eq_digitsOf hplaces d.coefficient
  have hpositional : d.positional = signText d.negative ++
      (digitsOf (d.coefficient / 10 ^ (-d.exponent).toNat) ++ '.' :: fraction) := by
    rw [positional, if_neg (by omega), heq]
  refine ⟨by simp [hpositional], ⟨d.negative, _, some fraction, Nat.toDigits_ne_nil,
    fun c => isDigit_of_mem_digitsOf, hfraction⟩, ⟨⟨_, rfl⟩, fraction, rfl, ?_⟩, hpositional, ?_⟩
  · rintro rfl
    rw [← hlength] at hplaces
    exact absurd hplaces (by decide)
  · have hexponent' : d.exponent = -((-d.exponent).toNat : Int) := by omega
    calc Binary64.ofQuotient d.negative
          (wholeOf (digitsOf (d.coefficient / 10 ^ (-d.exponent).toNat) ++ fraction) *
            quantaPerUnit) (10 ^ fraction.length)
        = .ofQuotient d.negative (d.coefficient * quantaPerUnit) (10 ^ (-d.exponent).toNat) := by
          rw [hunits, hlength]
      _ = toBinary64 ⟨d.negative, d.coefficient, -((-d.exponent).toNat : Int)⟩ :=
          (toBinary64_eq_ofQuotient _ _ _).symm
      _ = d.toBinary64 := by rw [← hexponent']

end Decimal

/-- **The text of a finite value** in a settings file is a number that denotes this value. -/
theorem exists_realText {x : Binary64} (hx : x.isFinite = true) :
    ∃ n : DisplayNumber, n.IsReal ∧ Settings.realText x = n.text ∧ n.value = x := by
  have hvalue := Binary64.toBinary64_shortest hx
  have hfinite : x.shortest.toBinary64.isFinite = true := hvalue.symm ▸ hx
  have htext : Settings.realText x = if x.shortest.positional.contains '.'
      then x.shortest.positional else x.shortest.positional ++ ".0".toList := by
    cases x with
    | nan => cases hx
    | infinite negative => cases hx
    | finite negative ordinal => rfl
  rw [htext]
  by_cases hexponent : 0 ≤ x.shortest.exponent
  · obtain ⟨hpoint, n, hreal, hn, hnvalue⟩ :=
      Decimal.exists_positional_of_nonneg hexponent hfinite
    rw [if_neg (by simpa using hpoint)]
    exact ⟨n, hreal, hn, hnvalue.trans hvalue⟩
  · obtain ⟨hpoint, n, hreal, hn, hnvalue⟩ :=
      Decimal.exists_positional_of_neg (Int.not_le.mp hexponent)
    rw [if_pos (by simpa using hpoint)]
    exact ⟨n, hreal, hn, hnvalue.trans hvalue⟩

end Keypad
