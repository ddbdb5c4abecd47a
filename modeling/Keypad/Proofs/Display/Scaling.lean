import Keypad.Proofs.Binary64.Order
import Keypad.Proofs.Display.Places

/-!
# Rounding to any number of places

The power of ten that a value is scaled by is computed by repeated squaring, each product rounded.
Rounding never leads below a power of two, so the product of values of at least `2 ^ i` and `2 ^ j`
is at least `2 ^ (i + j)` as it is computed; and the power of ten is at least a power of eight.  So
what is scaled down again does not grow, and a finite value stays finite when it is rounded.

## Main definitions

* `Binary64.IsAtLeast`: a value of at least a power of two

## Main results

* `Binary64.isAtLeast_power_ten`: powers of ten as they are computed
* `Binary64.roundTo_eq_self_or`: rounding to any number of places, in magnitudes
* `Binary64.isFinite_roundTo`: rounding keeps values finite
-/

namespace Keypad

namespace Binary64

variable {x y : Binary64} {i j n : Nat}

/-! ## Powers of ten -/

/-- A value of at least `2 ^ i`. -/
inductive IsAtLeast (i : Nat) : Binary64 → Prop where
  | finite {ordinal : Fin ordinalCount} (h : 2 ^ i * quantaPerUnit ≤ magnitudeOf ordinal) :
    IsAtLeast i (.finite false ordinal)
  | infinite : IsAtLeast i (.infinite false)

theorem isAtLeast_ofQuotient {num den : Nat} (hden : 0 < den)
    (h : 2 ^ i * quantaPerUnit * den ≤ num) : IsAtLeast i (ofQuotient false num den) := by
  have hmagnitude : 2 ^ i * quantaPerUnit ≤ nearestMagnitude num den := by
    rw [← two_pow_add_quantumPlaces] at h ⊢
    exact two_pow_le_nearestMagnitude hden h
  unfold ofQuotient
  split
  · exact .finite hmagnitude
  · exact .infinite

theorem ne_zero_of_le_magnitudeOf {ordinal : Fin ordinalCount}
    (h : 2 ^ i * quantaPerUnit ≤ magnitudeOf ordinal) : ordinal.val ≠ 0 := by
  intro hzero
  rw [hzero] at h
  exact Nat.not_le.mpr (Nat.mul_pos (Nat.two_pow_pos i) quantaPerUnit_pos) h

theorem IsAtLeast.mul (hx : IsAtLeast i x) (hy : IsAtLeast j y) : IsAtLeast (i + j) (x.mul y) := by
  cases hx with
  | finite hx =>
    cases hy with
    | finite hy =>
      refine isAtLeast_ofQuotient quantaPerUnit_pos ?_
      calc 2 ^ (i + j) * quantaPerUnit * quantaPerUnit
          = 2 ^ i * quantaPerUnit * (2 ^ j * quantaPerUnit) := by rw [Nat.pow_add]; ring
        _ ≤ _ := Nat.mul_le_mul hx hy
    | infinite =>
      rw [Binary64.mul, if_neg (ne_zero_of_le_magnitudeOf hx)]
      exact .infinite
  | infinite =>
    cases hy with
    | finite hy =>
      rw [Binary64.mul, if_neg (ne_zero_of_le_magnitudeOf hy)]
      exact .infinite
    | infinite => exact .infinite

/-- **Repeated squaring**: each round either multiplies the result by the base or leaves it, and
doubles the exponent of the base. -/
theorem isAtLeast_powerLoop {fuel : Nat} (hn : n < fuel) (hx : IsAtLeast i x)
    (hy : IsAtLeast j y) : IsAtLeast (i + j * n) (powerLoop fuel x y n) := by
  -- the base still has to be raised to `n`, so the rest of the product is at least `2 ^ (j * n)`
  induction fuel generalizing i j x y n with
  | zero => omega
  | succ fuel ih =>
    have hnext : IsAtLeast (i + j * (n % 2)) (if n % 2 = 1 then x.mul y else x) := by
      rcases Nat.mod_two_eq_zero_or_one n with heven | hodd
      · rw [heven, Nat.mul_zero, if_neg (by decide)]
        exact hx
      · rw [hodd, Nat.mul_one, if_pos rfl]
        exact hx.mul hy
    have hdigits := Nat.div_add_mod n 2
    unfold powerLoop
    dsimp only
    split
    · rename_i hlast
      have hself : n % 2 = n := by omega
      rwa [hself] at hnext ⊢
    · have hrest := ih (n := n / 2) (by omega) hnext (hy.mul hy)
      have hexponent : i + j * (n % 2) + (j + j) * (n / 2) = i + j * n := by
        calc i + j * (n % 2) + (j + j) * (n / 2) = i + j * (2 * (n / 2) + n % 2) := by ring
          _ = i + j * n := by rw [hdigits]
      rwa [hexponent] at hrest

/-- A power of ten is at least that power of eight. -/
theorem isAtLeast_power_ten (places : Nat) : IsAtLeast (3 * places) (ten.power places) := by
  have hone : IsAtLeast 0 one := .finite (by decide +kernel)
  have hten : IsAtLeast 3 ten := by
    unfold ten ofNat
    refine isAtLeast_ofQuotient Nat.one_pos ?_
    rw [Nat.mul_one]
    exact Nat.mul_le_mul_right _ (by decide)
  have hpower := isAtLeast_powerLoop (Nat.lt_succ_self places) hone hten
  rwa [Nat.zero_add] at hpower

/-! ## Scaling up and down -/

/-- A finite product with a value of at least a power of two is one with a finite value, since
infinity times a value is not finite. -/
theorem IsAtLeast.exists_of_isFinite_mul {negative : Bool} {ordinal : Fin ordinalCount}
    (hx : IsAtLeast i x) (hfinite : ((Binary64.finite negative ordinal).mul x).isFinite = true) :
    ∃ factor, x = .finite false factor ∧ 2 ^ i * quantaPerUnit ≤ magnitudeOf factor := by
  cases hx with
  | finite h => exact ⟨_, rfl, h⟩
  | infinite =>
    unfold Binary64.mul at hfinite
    dsimp only at hfinite
    split at hfinite <;> cases hfinite

theorem isNegative_ofQuotient (negative : Bool) (num den : Nat) :
    (ofQuotient negative num den).isNegative = negative := by
  unfold ofQuotient
  split <;> rfl

/-- A finite product with a number without a sign has the sign of the other factor. -/
theorem exists_eq_finite_mul {negative : Bool} {ordinal factor : Fin ordinalCount}
    (h : ((finite negative ordinal).mul (finite false factor)).isFinite = true) :
    ∃ scaled, (finite negative ordinal).mul (finite false factor) = finite negative scaled := by
  have hsign : ((finite negative ordinal).mul (finite false factor)).isNegative = negative := by
    rw [mul, isNegative_ofQuotient, Bool.bne_false]
  generalize (finite negative ordinal).mul (finite false factor) = product at h hsign
  cases product with
  | nan => cases h
  | infinite sign => cases h
  | finite sign scaled => exact ⟨scaled, congrArg (finite · scaled) hsign⟩

/-- What is rounded to a whole number is scaled down as up to `2 ^ 52` units. -/
theorem exists_div_roundToWhole {negative : Bool} {scaled factor : Fin ordinalCount}
    (hbelow : (finite negative scaled).abs.lt wholeFrom = true) (hfactor : factor.val ≠ 0) :
    ∃ k ≤ 2 ^ 52, (finite negative scaled).roundToWhole.div (finite false factor) =
      ofQuotient negative (k * quantaPerUnit * quantaPerUnit) (magnitudeOf factor) := by
  rw [abs_lt_wholeFrom, decide_eq_true_eq] at hbelow
  have hk := roundHalfUp_le_of_lt quantaPerUnit_pos hbelow
  obtain ⟨whole, hwhole, hmagnitude⟩ :=
    exists_ofQuotient_whole (Nat.lt_of_le_of_lt hk (by decide)) negative
  refine ⟨_, hk, ?_⟩
  rw [roundToWhole, hwhole, div, if_neg hfactor, hmagnitude, Bool.bne_false]

/-- **Rounding, to any number of places**: a value is left as it is, or up to `2 ^ 52` units of
the scaled value are scaled down again. -/
theorem roundTo_cases (places : Nat) (negative : Bool) (ordinal : Fin ordinalCount) :
    (finite negative ordinal).roundTo places = finite negative ordinal ∨
      ∃ k ≤ 2 ^ 52, ∃ factor : Fin ordinalCount,
        2 ^ (3 * places) * quantaPerUnit ≤ magnitudeOf factor ∧
          (finite negative ordinal).roundTo places =
            ofQuotient negative (k * quantaPerUnit * quantaPerUnit) (magnitudeOf factor) := by
  have hpower := isAtLeast_power_ten places
  unfold roundTo
  dsimp only
  cases hstays : !((finite negative ordinal).mul (ten.power places)).isFinite ||
      !((finite negative ordinal).mul (ten.power places)).abs.lt wholeFrom with
  | true => exact Or.inl (if_pos rfl)
  | false =>
    rw [Bool.or_eq_false_iff, Bool.not_eq_false', Bool.not_eq_false'] at hstays
    obtain ⟨hfinite, hbelow⟩ := hstays
    obtain ⟨factor, hfactor, hlarge⟩ := hpower.exists_of_isFinite_mul hfinite
    rw [hfactor] at hfinite hbelow ⊢
    obtain ⟨scaled, hscaled⟩ := exists_eq_finite_mul hfinite
    rw [hscaled] at hbelow ⊢
    obtain ⟨k, hk, hdiv⟩ := exists_div_roundToWhole hbelow (ne_zero_of_le_magnitudeOf hlarge)
    refine Or.inr ⟨k, hk, factor, hlarge, ?_⟩
    rw [if_neg Bool.false_ne_true, hdiv]

/-- What is scaled down again is at most `2 ^ 52` units, less the power of two in the factor. -/
theorem nearestMagnitude_scaled_le {k e factor : Nat} (hk : k ≤ 2 ^ 52) (he : e ≤ 52)
    (hfactor : 2 ^ e * quantaPerUnit ≤ factor) :
    nearestMagnitude (k * quantaPerUnit * quantaPerUnit) factor ≤
      2 ^ (52 - e) * quantaPerUnit := by
  have hpos : 0 < factor :=
    Nat.lt_of_lt_of_le (Nat.mul_pos (Nat.two_pow_pos e) quantaPerUnit_pos) hfactor
  have hunits : 2 ^ (52 - e) < 2 ^ 53 := Nat.pow_lt_pow_right (by decide) (by omega)
  refine nearestMagnitude_le hpos hunits ?_
  calc k * quantaPerUnit * quantaPerUnit
      ≤ 2 ^ 52 * quantaPerUnit * quantaPerUnit :=
        Nat.mul_le_mul_right _ (Nat.mul_le_mul_right _ hk)
    _ = 2 ^ (52 - e) * quantaPerUnit * (2 ^ e * quantaPerUnit) := by
        rw [← Nat.pow_sub_mul_pow 2 he]
        ring
    _ ≤ 2 ^ (52 - e) * quantaPerUnit * factor := Nat.mul_le_mul_left _ hfactor

/-- **Rounding, in magnitudes**: a value that is not left as it is stays finite, and below `2 ^ 52`
units, and further below the more places are kept. -/
theorem roundTo_eq_self_or (places : Nat) (hx : x.isFinite = true) :
    x.roundTo places = x ∨ (x.roundTo places).isFinite = true ∧
      ∀ e ≤ 52, e ≤ 3 * places → (x.roundTo places).magnitude ≤ 2 ^ (52 - e) * quantaPerUnit := by
  cases x with
  | nan => cases hx
  | infinite negative => cases hx
  | finite negative ordinal =>
    refine (roundTo_cases places negative ordinal).imp_right ?_
    rintro ⟨k, hk, factor, hfactor, hrounded⟩
    have hlarge : ∀ e ≤ 3 * places, 2 ^ e * quantaPerUnit ≤ magnitudeOf factor := fun e he =>
      (Nat.mul_le_mul_right _ (Nat.pow_le_pow_right Nat.two_pos he)).trans hfactor
    -- the factor is at least one, so the quotient stays in range
    have hpos : 0 < magnitudeOf factor :=
      Nat.lt_of_lt_of_le quantaPerUnit_pos (by simpa using hlarge 0 (Nat.zero_le _))
    have hfinite : ((finite negative ordinal).roundTo places).isFinite = true := by
      rw [hrounded]
      refine isFinite_ofQuotient (k := quantumPlaces) negative (by decide) ?_
      rw [two_pow_add_quantumPlaces, Nat.div_lt_iff_lt_mul hpos]
      calc k * quantaPerUnit * quantaPerUnit
          ≤ 2 ^ 52 * quantaPerUnit * magnitudeOf factor :=
            Nat.mul_le_mul (Nat.mul_le_mul_right _ hk) (by simpa using hlarge 0 (Nat.zero_le _))
        _ < 2 ^ 53 * quantaPerUnit * magnitudeOf factor := by
            refine Nat.mul_lt_mul_of_pos_right ?_ hpos
            exact Nat.mul_lt_mul_of_pos_right (by decide) quantaPerUnit_pos
    refine ⟨hfinite, fun e he he' => ?_⟩
    rw [hrounded] at hfinite ⊢
    rw [magnitude_ofQuotient hfinite]
    exact nearestMagnitude_scaled_le hk he (hlarge e he')

theorem isFinite_roundTo (places : Nat) (hx : x.isFinite = true) :
    (x.roundTo places).isFinite = true := by
  rcases roundTo_eq_self_or places hx with hself | ⟨hfinite, -⟩
  · rwa [hself]
  · exact hfinite

end Binary64

end Keypad
