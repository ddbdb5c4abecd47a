import Keypad.Proofs.Binary64.Nearest

/-!
# Rounding keeps order

A larger quotient is never rounded to a smaller magnitude.  Where two quotients have the same
spacing, a smaller rounding of the larger one would put both on the same tie; where they do not, the
end of the one run of magnitudes lies between them.  So sums and products of numbers without a sign
keep order.

## Main definitions

* `Binary64.InOrder`: two numbers without a sign, in order

## Main results

* `roundEven_le_roundEven`, `nearestOrdinal_le_nearestOrdinal`: rounding is monotone in the quotient
* `Binary64.InOrder.mul`, `add_left`, `add_right`: products and sums keep order
-/

namespace Keypad

variable {num den num' den' : Nat}

/-- **Rounding to a whole number is monotone** in the quotient. -/
theorem roundEven_le_roundEven (hden : 0 < den) (hden' : 0 < den')
    (h : num * den' ≤ num' * den) : roundEven num den ≤ roundEven num' den' := by
  by_contra hlt
  have hnext : roundEven num' den' + 1 ≤ roundEven num den := Nat.lt_of_not_le hlt
  obtain ⟨-, hhigh⟩ := roundEven_bounds num den hden
  obtain ⟨hlow, -⟩ := roundEven_bounds num' den' hden'
  -- half a unit above the smaller rounding lies between the quotients, so both are there
  have hbetween : 2 * (num' * den) ≤ 2 * (num * den') := by
    have hmul := Nat.mul_le_mul_right den hlow
    have hstep : (2 * roundEven num' den' + 1) * den ≤ 2 * num := by
      have := Nat.mul_le_mul_right den (Nat.mul_le_mul_left 2 hnext)
      rw [Nat.mul_add, Nat.add_mul] at this
      rw [Nat.add_mul, Nat.one_mul]
      omega
    calc 2 * (num' * den) = 2 * num' * den := (Nat.mul_assoc 2 _ _).symm
      _ ≤ (2 * roundEven num' den' + 1) * den' * den := hmul
      _ = (2 * roundEven num' den' + 1) * den * den' := Nat.mul_right_comm _ _ _
      _ ≤ 2 * num * den' := Nat.mul_le_mul_right den' hstep
      _ = 2 * (num * den') := Nat.mul_assoc 2 _ _
  have hsame : num * den' = num' * den := Nat.le_antisymm h (by omega)
  have hround : roundEven num den = roundEven num' den' := by
    rw [← roundEven_mul_mul num den hden', ← roundEven_mul_mul num' den' hden, hsame,
      Nat.mul_comm den]
  omega

/-- The whole part is monotone in the quotient. -/
theorem div_le_div_of_mul_le_mul (hden : 0 < den) (hden' : 0 < den')
    (h : num * den' ≤ num' * den) : num / den ≤ num' / den' := by
  refine (Nat.le_div_iff_mul_le hden').mpr (Nat.le_of_mul_le_mul_right ?_ hden)
  calc num / den * den' * den = num / den * den * den' := Nat.mul_right_comm _ _ _
    _ ≤ num * den' := Nat.mul_le_mul_right _ (Nat.div_mul_le_self num den)
    _ ≤ num' * den := h

theorem spacingExponent_le_spacingExponent (h : num / den ≤ num' / den') :
    spacingExponent num den ≤ spacingExponent num' den' := by
  have hlog : (num / den).log2 ≤ (num' / den').log2 := by
    by_cases hzero : num / den = 0
    · rw [hzero, Nat.log2_zero]
      exact Nat.zero_le _
    · have hzero' : num' / den' ≠ 0 := fun heq => hzero (Nat.le_zero.mp (heq ▸ h))
      exact (Nat.le_log2 hzero').mpr ((Nat.log2_self_le hzero).trans h)
  exact Nat.sub_le_sub_right hlog 52

/-- A nearest ordinal, with its run. -/
theorem nearestOrdinal_eq (num den : Nat) : nearestOrdinal num den =
    spacingExponent num den * 2 ^ 52 +
      roundEven num (den * 2 ^ spacingExponent num den) := rfl

/-- **Rounding to a magnitude is monotone** in the quotient. -/
theorem nearestOrdinal_le_nearestOrdinal (hden : 0 < den) (hden' : 0 < den')
    (h : num * den' ≤ num' * den) : nearestOrdinal num den ≤ nearestOrdinal num' den' := by
  have hspacing : spacingExponent num den ≤ spacingExponent num' den' :=
    spacingExponent_le_spacingExponent (div_le_div_of_mul_le_mul hden hden' h)
  rw [nearestOrdinal_eq, nearestOrdinal_eq]
  rcases Nat.lt_or_eq_of_le hspacing with hlt | heq
  · -- the run of the smaller quotient ends where that of the larger one begins, or before
    have hend : roundEven num (den * 2 ^ spacingExponent num den) ≤ 2 ^ 53 := by
      refine roundEven_le_of_le (Nat.mul_pos hden (Nat.two_pow_pos _)) ?_
      calc num ≤ 2 ^ (53 + spacingExponent num den) * den :=
            Nat.le_of_lt (lt_two_pow_spacingExponent hden)
        _ = 2 ^ 53 * (den * 2 ^ spacingExponent num den) := by rw [Nat.pow_add]; ring
    have hbegin : 2 ^ 52 ≤ roundEven num' (den' * 2 ^ spacingExponent num' den') := by
      refine le_roundEven_of_le (Nat.mul_pos hden' (Nat.two_pow_pos _)) ?_
      calc 2 ^ 52 * (den' * 2 ^ spacingExponent num' den')
          = 2 ^ (52 + spacingExponent num' den') * den' := by rw [Nat.pow_add]; ring
        _ ≤ num' := two_pow_spacingExponent_le (by omega)
    omega
  · rw [← heq]
    refine Nat.add_le_add_left (roundEven_le_roundEven ?_ ?_ ?_) _
    · exact Nat.mul_pos hden (Nat.two_pow_pos _)
    · exact Nat.mul_pos hden' (Nat.two_pow_pos _)
    · rw [← Nat.mul_assoc, ← Nat.mul_assoc]
      exact Nat.mul_le_mul_right _ h

theorem magnitudeOf_le_magnitudeOf {m n : Nat} (h : m ≤ n) : magnitudeOf m ≤ magnitudeOf n := by
  rcases Nat.lt_or_eq_of_le h with hlt | rfl
  · exact Nat.le_of_lt (magnitudeOf_lt_magnitudeOf hlt)
  · exact Nat.le_refl _

theorem nearestMagnitude_le_nearestMagnitude (hden : 0 < den) (hden' : 0 < den')
    (h : num * den' ≤ num' * den) : nearestMagnitude num den ≤ nearestMagnitude num' den' :=
  magnitudeOf_le_magnitudeOf (nearestOrdinal_le_nearestOrdinal hden hden' h)

/-- A quotient of up to 53 bits is not rounded beyond a whole number of units above it. -/
theorem nearestMagnitude_le {k : Nat} (hden : 0 < den) (hk : k < 2 ^ 53)
    (h : num ≤ k * quantaPerUnit * den) : nearestMagnitude num den ≤ k * quantaPerUnit := by
  rw [← nearestMagnitude_mul hk]
  refine nearestMagnitude_le_nearestMagnitude hden Nat.one_pos ?_
  rwa [Nat.mul_one]

/-! ## Values without a sign -/

namespace Binary64

/-- Two numbers without a sign, the smaller one first. -/
inductive InOrder : Binary64 → Binary64 → Prop where
  | ordinals {m n : Fin ordinalCount} (h : m.val ≤ n.val) :
    InOrder (.finite false m) (.finite false n)
  | toInfinity (m : Fin ordinalCount) : InOrder (.finite false m) (.infinite false)
  | infinities : InOrder (.infinite false) (.infinite false)

variable {x y z : Binary64}

/-- A finite rounding has the nearest magnitude. -/
theorem magnitude_ofQuotient {negative : Bool} (h : (ofQuotient negative num den).isFinite = true) :
    (ofQuotient negative num den).magnitude = nearestMagnitude num den := by
  unfold ofQuotient at h ⊢
  split at h
  · rename_i hlt
    rw [dif_pos hlt]
    rfl
  · cases h

theorem inOrder_infinite (num den : Nat) :
    InOrder (ofQuotient false num den) (.infinite false) := by
  unfold ofQuotient
  split
  · exact .toInfinity _
  · exact .infinities

/-- One rounding keeps order. -/
theorem inOrder_ofQuotient (hden : 0 < den) (hden' : 0 < den') (h : num * den' ≤ num' * den) :
    InOrder (ofQuotient false num den) (ofQuotient false num' den') := by
  have hordinal := nearestOrdinal_le_nearestOrdinal hden hden' h
  unfold ofQuotient
  split
  · split
    · exact .ordinals hordinal
    · exact .toInfinity _
  · -- infinity is not rounded up to a finite value
    rw [dif_neg (by omega)]
    exact .infinities

/-- Sums of numbers without a sign have none. -/
theorem add_unsigned (m n : Fin ordinalCount) :
    (finite false m).add (finite false n) = ofQuotient false (magnitudeOf m + magnitudeOf n) 1 := by
  have hsum : (finite false m).quanta + (finite false n).quanta =
      ((magnitudeOf m + magnitudeOf n : Nat) : Int) := by
    simp [quanta, isNegative, magnitude]
  unfold add
  dsimp only
  rw [hsum]
  split
  · rename_i hzero
    rw [Int.natCast_eq_zero.mp hzero]
    decide
  · rw [Int.natAbs_natCast, decide_eq_false (by omega)]

namespace InOrder

theorem mul (h : InOrder x y) {factor : Fin ordinalCount} (hfactor : factor.val ≠ 0) :
    InOrder ((finite false factor).mul x) ((finite false factor).mul y) := by
  have hinfinite : (finite false factor).mul (infinite false) = infinite false := if_neg hfactor
  cases h with
  | ordinals h =>
    refine inOrder_ofQuotient quantaPerUnit_pos quantaPerUnit_pos (Nat.mul_le_mul_right _ ?_)
    exact Nat.mul_le_mul_left _ (magnitudeOf_le_magnitudeOf h)
  | toInfinity m =>
    rw [hinfinite]
    exact inOrder_infinite _ _
  | infinities =>
    rw [hinfinite]
    exact .infinities

theorem add_left (h : InOrder x y) (term : Fin ordinalCount) :
    InOrder ((finite false term).add x) ((finite false term).add y) := by
  cases h with
  | ordinals h =>
    rw [add_unsigned, add_unsigned]
    refine inOrder_ofQuotient Nat.one_pos Nat.one_pos (Nat.mul_le_mul_right _ ?_)
    exact Nat.add_le_add_left (magnitudeOf_le_magnitudeOf h) _
  | toInfinity m =>
    rw [add_unsigned]
    exact inOrder_infinite _ _
  | infinities => exact .infinities

theorem add_right (h : InOrder x y) (term : Fin ordinalCount) :
    InOrder (x.add (finite false term)) (y.add (finite false term)) := by
  cases h with
  | ordinals h =>
    rw [add_unsigned, add_unsigned]
    refine inOrder_ofQuotient Nat.one_pos Nat.one_pos (Nat.mul_le_mul_right _ ?_)
    exact Nat.add_le_add_right (magnitudeOf_le_magnitudeOf h) _
  | toInfinity m =>
    rw [add_unsigned]
    exact inOrder_infinite _ _
  | infinities => exact .infinities

theorem rank_le (h : InOrder x y) : x.rank ≤ y.rank := by
  cases h with
  | ordinals h => exact Int.ofNat_le.mpr h
  | toInfinity m => exact Int.ofNat_le.mpr (Nat.le_of_lt m.isLt)
  | infinities => exact Int.le_refl _

/-- What the larger number stays below, the smaller one does. -/
theorem lt_of_lt (h : InOrder x y) (hlt : y.lt z = true) : x.lt z = true := by
  have hrank := h.rank_le
  have hnumber : x.isNaN = false := by cases h <;> rfl
  unfold lt at hlt ⊢
  simp only [Bool.and_eq_true, decide_eq_true_eq] at hlt ⊢
  exact ⟨⟨by simp [hnumber], hlt.1.2⟩, Int.lt_of_le_of_lt hrank hlt.2⟩

end InOrder

end Binary64

end Keypad
