import Keypad.Proofs.Decimal.Range

/-!
# The magnitude nearest to a quotient

Magnitudes are spaced by powers of two: at a quotient of quanta the spacing is `2 ^ e`, where `e`
leaves 53 bits of the quotient.  The nearest magnitude is the nearest multiple of that spacing, so
it is at most half a spacing away; and a multiple less than half a spacing away is the nearest one.

## Main definitions

* `spacingExponent`, `nearestMagnitude`

## Main results

* `nearestMagnitude_eq`: the nearest magnitude as a multiple of the spacing
* `nearestMagnitude_bounds`: it is at most half a spacing away
* `nearestMagnitude_eq_of_close`: a multiple of the spacing less than half of it away is nearest
* `two_pow_le_nearestMagnitude`: rounding does not lead below a power of two
* `nearestMagnitude_mul`: whole numbers of up to 53 bits are kept
-/

namespace Keypad

variable {num den k m : Nat}

/-! ## Rounding to a whole number -/

theorem le_roundEven_of_le (hden : 0 < den) (h : k * den ≤ num) : k ≤ roundEven num den := by
  have hfloor : k ≤ num / den := (Nat.le_div_iff_mul_le hden).mpr h
  unfold roundEven
  dsimp only
  split
  · exact hfloor
  split
  · omega
  · omega

theorem roundEven_le_of_le (hden : 0 < den) (h : num ≤ k * den) : roundEven num den ≤ k := by
  by_contra hlt
  have hmul : (k + 1) * den ≤ roundEven num den * den := Nat.mul_le_mul_right den (by omega)
  have hbound := (roundEven_bounds num den hden).2
  -- then the quotient lies half a unit above `k` at least
  have : 2 * ((k + 1) * den) ≤ 2 * num + den := by
    calc 2 * ((k + 1) * den) ≤ 2 * (roundEven num den * den) := Nat.mul_le_mul_left 2 hmul
      _ = 2 * roundEven num den * den := (Nat.mul_assoc 2 _ den).symm
      _ ≤ 2 * num + den := hbound
  rw [Nat.add_mul, Nat.one_mul] at this
  omega

/-- The whole number less than half a unit away is the nearest one. -/
theorem roundEven_eq_of_close (hden : 0 < den) (hbelow : 2 * num < (2 * k + 1) * den)
    (habove : 2 * k * den < 2 * num + den) : roundEven num den = k := by
  obtain ⟨hlow, hhigh⟩ := roundEven_bounds num den hden
  have hle : 2 * k * den < (2 * roundEven num den + 2) * den := by
    calc 2 * k * den < 2 * num + den := habove
      _ ≤ (2 * roundEven num den + 1) * den + den := Nat.add_le_add_right hlow den
      _ = (2 * roundEven num den + 2) * den := by ring
  have hge : 2 * roundEven num den * den < (2 * k + 2) * den := by
    calc 2 * roundEven num den * den ≤ 2 * num + den := hhigh
      _ < (2 * k + 1) * den + den := Nat.add_lt_add_right hbelow den
      _ = (2 * k + 2) * den := by ring
  have := Nat.lt_of_mul_lt_mul_right hle
  have := Nat.lt_of_mul_lt_mul_right hge
  omega

/-- Rounding depends on the quotient only. -/
theorem roundEven_mul_mul (num den : Nat) {c : Nat} (hc : 0 < c) :
    roundEven (num * c) (den * c) = roundEven num den := by
  have hrest : ∀ a b : Nat, 2 * (a * c) < b * c ↔ 2 * a < b := fun a b => by
    rw [← Nat.mul_assoc, Nat.mul_lt_mul_right hc]
  have hrest' : ∀ a b : Nat, b * c < 2 * (a * c) ↔ b < 2 * a := fun a b => by
    rw [← Nat.mul_assoc, Nat.mul_lt_mul_right hc]
  unfold roundEven
  simp only [Nat.mul_div_mul_right _ _ hc, Nat.mul_mod_mul_right, hrest, hrest']

/-! ## The nearest magnitude -/

/-- The exponent of the spacing of magnitudes at a quotient of quanta. -/
def spacingExponent (num den : Nat) : Nat := (num / den).log2 - 52

/-- The magnitude nearest to a quotient of quanta. -/
def nearestMagnitude (num den : Nat) : Nat := magnitudeOf (nearestOrdinal num den)

theorem nearestOrdinal_mul_mul (num den : Nat) {c : Nat} (hc : 0 < c) :
    nearestOrdinal (num * c) (den * c) = nearestOrdinal num den := by
  unfold nearestOrdinal
  simp only [Nat.mul_div_mul_right _ _ hc]
  rw [Nat.mul_right_comm den c, roundEven_mul_mul _ _ hc]

/-- The magnitude whose ordinal is `m` in the run with spacing `2 ^ e`.  Its end is the beginning of
the next run. -/
theorem magnitudeOf_run {e : Nat} (hm : m ≤ 2 ^ 53) (he : 0 < e → 2 ^ 52 ≤ m) :
    magnitudeOf (e * 2 ^ 52 + m) = m * 2 ^ e := by
  unfold magnitudeOf
  by_cases hsmall : m < 2 ^ 52
  · obtain rfl : e = 0 := by omega
    rw [if_pos (by omega)]
    simp
  · rw [if_neg (by omega)]
    rcases Nat.lt_or_ge m (2 ^ 53) with hlt | hge
    · have hmod : (e * 2 ^ 52 + m) % 2 ^ 52 = m - 2 ^ 52 := by omega
      have hdiv : (e * 2 ^ 52 + m) / 2 ^ 52 - 1 = e := by omega
      rw [hmod, hdiv, Nat.add_sub_cancel' (by omega)]
    · obtain rfl : m = 2 ^ 53 := by omega
      have hmod : (e * 2 ^ 52 + 2 ^ 53) % 2 ^ 52 = 0 := by omega
      have hdiv : (e * 2 ^ 52 + 2 ^ 53) / 2 ^ 52 - 1 = e + 1 := by omega
      rw [hmod, hdiv, Nat.add_zero, Nat.pow_succ 2 e]
      ring

/-- Beyond the least magnitudes, which are whole numbers of quanta, a magnitude is 53 bits of a
power of two. -/
theorem exists_magnitudeOf_eq {n : Nat} (h : 2 ^ 52 ≤ magnitudeOf n) :
    ∃ m e, magnitudeOf n = m * 2 ^ e ∧ 2 ^ 52 ≤ m ∧ m < 2 ^ 53 := by
  have hn : ¬ n < 2 ^ 52 := by
    intro hn
    rw [magnitudeOf, if_pos hn] at h
    omega
  exact ⟨2 ^ 52 + n % 2 ^ 52, n / 2 ^ 52 - 1, if_neg hn, by omega, by omega⟩

theorem lt_two_pow_spacingExponent (hden : 0 < den) :
    num < 2 ^ (53 + spacingExponent num den) * den := by
  have hlog : num / den < 2 ^ ((num / den).log2 + 1) := Nat.lt_log2_self
  have hpow : 2 ^ ((num / den).log2 + 1) ≤ 2 ^ (53 + spacingExponent num den) :=
    Nat.pow_le_pow_right Nat.two_pos (by unfold spacingExponent; omega)
  exact (Nat.div_lt_iff_lt_mul hden).mp (Nat.lt_of_lt_of_le hlog hpow)

theorem two_pow_spacingExponent_le (h : 0 < spacingExponent num den) :
    2 ^ (52 + spacingExponent num den) * den ≤ num := by
  have hlog : 52 + spacingExponent num den = (num / den).log2 := by
    unfold spacingExponent at h ⊢
    omega
  have hne : num / den ≠ 0 := by
    intro hzero
    rw [spacingExponent, hzero] at h
    exact absurd h (by decide)
  rw [hlog]
  calc 2 ^ (num / den).log2 * den ≤ num / den * den :=
        Nat.mul_le_mul_right den (Nat.log2_self_le hne)
    _ ≤ num := Nat.div_mul_le_self num den

/-- **The nearest magnitude** is the nearest multiple of the spacing. -/
theorem nearestMagnitude_eq (num : Nat) (hden : 0 < den) : nearestMagnitude num den =
    roundEven num (den * 2 ^ spacingExponent num den) * 2 ^ spacingExponent num den := by
  have hspacing : 0 < den * 2 ^ spacingExponent num den :=
    Nat.mul_pos hden (Nat.two_pow_pos _)
  refine magnitudeOf_run (roundEven_le_of_le hspacing ?_) fun hpos =>
    le_roundEven_of_le hspacing ?_
  · calc num ≤ 2 ^ (53 + spacingExponent num den) * den :=
          Nat.le_of_lt (lt_two_pow_spacingExponent hden)
      _ = 2 ^ 53 * (den * 2 ^ spacingExponent num den) := by rw [Nat.pow_add]; ring
  · calc 2 ^ 52 * (den * 2 ^ spacingExponent num den)
        = 2 ^ (52 + spacingExponent num den) * den := by rw [Nat.pow_add]; ring
      _ ≤ num := two_pow_spacingExponent_le hpos

/-- **One rounding** is off by at most half a spacing. -/
theorem nearestMagnitude_bounds (num : Nat) (hden : 0 < den) :
    2 * num ≤ 2 * (nearestMagnitude num den * den) + den * 2 ^ spacingExponent num den ∧
      2 * (nearestMagnitude num den * den) ≤ 2 * num + den * 2 ^ spacingExponent num den := by
  obtain ⟨hlow, hhigh⟩ := roundEven_bounds num (den * 2 ^ spacingExponent num den)
    (Nat.mul_pos hden (Nat.two_pow_pos _))
  rw [nearestMagnitude_eq num hden]
  constructor
  · refine hlow.trans (Nat.le_of_eq ?_)
    ring
  · refine Nat.le_trans (Nat.le_of_eq ?_) hhigh
    ring

theorem spacingExponent_le (h : num < 2 ^ (53 + k) * den) :
    spacingExponent num den ≤ k := by
  by_contra hlt
  have hlarge := two_pow_spacingExponent_le (by omega : 0 < spacingExponent num den)
  have hpow : 2 ^ (53 + k) ≤ 2 ^ (52 + spacingExponent num den) :=
    Nat.pow_le_pow_right Nat.two_pos (by omega)
  have := Nat.mul_le_mul_right den hpow
  omega

theorem le_spacingExponent (hden : 0 < den) (h : 2 ^ (52 + k) * den ≤ num) :
    k ≤ spacingExponent num den := by
  by_contra hlt
  have hsmall : num < 2 ^ (53 + spacingExponent num den) * den :=
    lt_two_pow_spacingExponent hden
  have hpow : 2 ^ (53 + spacingExponent num den) ≤ 2 ^ (52 + k) :=
    Nat.pow_le_pow_right Nat.two_pos (by omega)
  have := Nat.mul_le_mul_right den hpow
  omega

/-- **A magnitude less than half a spacing away is the nearest one.** -/
theorem nearestMagnitude_eq_of_close {e : Nat} (hden : 0 < den) (hlow : 2 ^ (52 + e) * den ≤ num)
    (hhigh : num < 2 ^ (53 + e) * den)
    (hbelow : 2 * num < 2 * (m * 2 ^ e * den) + den * 2 ^ e)
    (habove : 2 * (m * 2 ^ e * den) < 2 * num + den * 2 ^ e) :
    nearestMagnitude num den = m * 2 ^ e := by
  have hspacing : spacingExponent num den = e :=
    Nat.le_antisymm (spacingExponent_le hhigh) (le_spacingExponent hden hlow)
  have hround : roundEven num (den * 2 ^ e) = m := by
    refine roundEven_eq_of_close (Nat.mul_pos hden (Nat.two_pow_pos _)) ?_ ?_
    · calc 2 * num < 2 * (m * 2 ^ e * den) + den * 2 ^ e := hbelow
        _ = (2 * m + 1) * (den * 2 ^ e) := by ring
    · calc 2 * m * (den * 2 ^ e) = 2 * (m * 2 ^ e * den) := by ring
        _ < 2 * num + den * 2 ^ e := habove
  rw [nearestMagnitude_eq num hden, hspacing, hround]

/-! ## Powers of two and whole numbers -/

/-- A power of two, counted in units. -/
theorem two_pow_add_quantumPlaces (n : Nat) : 2 ^ (n + quantumPlaces) = 2 ^ n * quantaPerUnit :=
  Nat.pow_add 2 n quantumPlaces

theorem two_pow_le_nearestMagnitude (hden : 0 < den) (h : 2 ^ k * den ≤ num) :
    2 ^ k ≤ nearestMagnitude num den := by
  rw [nearestMagnitude_eq num hden]
  generalize he : spacingExponent num den = e
  have hspacing : 0 < den * 2 ^ e := Nat.mul_pos hden (Nat.two_pow_pos _)
  rcases Nat.lt_or_ge k e with hlt | hle
  · -- the quotient holds more than one spacing
    have hround : 1 ≤ roundEven num (den * 2 ^ e) := by
      refine le_roundEven_of_le hspacing ?_
      have hlow := two_pow_spacingExponent_le (by omega : 0 < spacingExponent num den)
      calc 1 * (den * 2 ^ e) ≤ 2 ^ 52 * (den * 2 ^ e) := Nat.mul_le_mul_right _ (by decide)
        _ = 2 ^ (52 + e) * den := by rw [Nat.pow_add]; ring
        _ ≤ num := he ▸ hlow
    calc 2 ^ k ≤ 2 ^ e := Nat.pow_le_pow_right Nat.two_pos hlt.le
      _ ≤ roundEven num (den * 2 ^ e) * 2 ^ e := Nat.le_mul_of_pos_left _ hround
  · have hround : 2 ^ (k - e) ≤ roundEven num (den * 2 ^ e) := by
      refine le_roundEven_of_le hspacing ?_
      calc 2 ^ (k - e) * (den * 2 ^ e) = 2 ^ (k - e) * 2 ^ e * den := by ring
        _ = 2 ^ k * den := by rw [Nat.pow_sub_mul_pow 2 hle]
        _ ≤ num := h
    calc 2 ^ k = 2 ^ (k - e) * 2 ^ e := (Nat.pow_sub_mul_pow 2 hle).symm
      _ ≤ roundEven num (den * 2 ^ e) * 2 ^ e := Nat.mul_le_mul_right _ hround

/-- Whole numbers of up to 53 bits are magnitudes, counted in units. -/
theorem nearestMagnitude_mul (hm : m < 2 ^ 53) :
    nearestMagnitude (m * quantaPerUnit) 1 = m * quantaPerUnit := by
  have hle : spacingExponent (m * quantaPerUnit) 1 ≤ quantumPlaces := by
    refine spacingExponent_le ?_
    rw [Nat.mul_one, two_pow_add_quantumPlaces]
    exact Nat.mul_lt_mul_of_pos_right hm quantaPerUnit_pos
  rw [nearestMagnitude_eq _ Nat.one_pos]
  generalize spacingExponent (m * quantaPerUnit) 1 = d at hle
  have hmultiple : m * quantaPerUnit = m * 2 ^ (quantumPlaces - d) * 2 ^ d := by
    rw [Nat.mul_assoc, Nat.pow_sub_mul_pow 2 hle, quantaPerUnit]
  rw [hmultiple, Nat.one_mul, roundEven_mul_self _ _ (Nat.two_pow_pos _)]

end Keypad
