import Keypad.Proofs.Display.Scaling
import Keypad.Proofs.Display.Written

/-!
# The sign of a zero

The sign of a zero is lost on the display, and nothing that happens to it before shows it: the
operators, rounding and the ceiling take values that differ in the sign of a zero to values that
differ in no more, and both are written the same way.  Dividing by either zero fails alike.

## Main definitions

* `Binary64.SameNumber`: values that differ at most in the sign of a zero

## Main results

* `SameNumber.apply`, `SameNumber.accept`: operators and acceptance keep the number
* `SameNumber.write_eq`: one number is written in one way
-/

namespace Keypad

namespace Binary64

variable {places : Nat} {x x' y y' z : Binary64}

/-- Values that differ at most in the sign of a zero. -/
def SameNumber (x y : Binary64) : Prop := x.dropZeroSign = y.dropZeroSign

namespace SameNumber

theorem refl (x : Binary64) : SameNumber x x := rfl

theorem trans (h : SameNumber x y) (h' : SameNumber y z) : SameNumber x z := Eq.trans h h'

theorem zeros (s t : Bool) : SameNumber (zero s) (zero t) := rfl

end SameNumber

theorem exists_eq_zero (h : x.isZero = true) : ∃ s, x = zero s := by
  cases x with
  | nan => cases h
  | infinite negative => cases h
  | finite negative ordinal =>
    have hordinal : ordinal = ⟨0, by decide⟩ := Fin.ext (by simpa [isZero] using h)
    exact ⟨negative, by rw [hordinal, zero]⟩

/-- **Values of one number** are equal, or both are zero. -/
theorem SameNumber.cases (h : SameNumber x y) : x = y ∨ ∃ s t, x = zero s ∧ y = zero t := by
  unfold SameNumber dropZeroSign at h
  cases hx : x.isZero with
  | true =>
    rw [hx, if_pos rfl] at h
    have hy : y.isZero = true := by
      split at h
      · assumption
      · rw [← h]
        rfl
    obtain ⟨s, hs⟩ := exists_eq_zero hx
    obtain ⟨t, ht⟩ := exists_eq_zero hy
    exact Or.inr ⟨s, t, hs, ht⟩
  | false =>
    rw [hx, if_neg Bool.false_ne_true] at h
    split at h
    · rw [h] at hx
      cases hx
    · exact Or.inl h

theorem sameNumber_dropZeroSign (x : Binary64) : SameNumber x x.dropZeroSign := by
  unfold SameNumber
  cases hx : x.isZero with
  | true =>
    obtain ⟨s, rfl⟩ := exists_eq_zero hx
    rfl
  | false =>
    have hself : x.dropZeroSign = x := by rw [dropZeroSign, hx, if_neg Bool.false_ne_true]
    rw [hself, hself]

/-- What takes both zeros to one number takes values of one number to one. -/
theorem SameNumber.map (h : SameNumber x y) {f : Binary64 → Binary64}
    (hzeros : ∀ s t, SameNumber (f (zero s)) (f (zero t))) : SameNumber (f x) (f y) := by
  rcases h.cases with rfl | ⟨s, t, rfl, rfl⟩
  · exact .refl _
  · exact hzeros s t

/-! ## Arithmetic -/

theorem quanta_zero (s : Bool) : (zero s).quanta = 0 := by
  cases s <;> rfl

theorem add_comm (x y : Binary64) : x.add y = y.add x := by
  cases x <;> cases y <;> simp only [add, Int.add_comm, Bool.and_comm]
  case infinite.infinite s t =>
    by_cases h : s = t
    · rw [h]
    · rw [if_neg h, if_neg (Ne.symm h)]

theorem mul_comm (x y : Binary64) : x.mul y = y.mul x := by
  cases x <;> cases y <;> simp only [mul, Nat.mul_comm, bne_comm]

/-- The quanta of a sum do not see the sign of a zero, and a sum that is zero is one of both. -/
theorem add_zeros (s t : Bool) (y : Binary64) :
    SameNumber ((zero s).add y) ((zero t).add y) := by
  cases y with
  | nan => exact .refl _
  | infinite negative => exact .refl _
  | finite negative ordinal =>
    -- the sign of the zero matters only where the sum is zero
    have hsum : ∀ sign, (zero sign).add (finite negative ordinal) =
        if (finite negative ordinal).quanta = 0 then zero (sign && negative)
        else ofQuotient (decide ((finite negative ordinal).quanta < 0))
          (finite negative ordinal).quanta.natAbs 1 := by
      intro sign
      have hquanta := quanta_zero sign
      unfold zero at hquanta
      rw [zero, add, hquanta, Int.zero_add]
    rw [hsum, hsum]
    split
    · exact .zeros _ _
    · exact .refl _

theorem magnitudeOf_zero : magnitudeOf 0 = 0 := rfl

theorem zero_mul_finite (s negative : Bool) (ordinal : Fin ordinalCount) :
    (zero s).mul (finite negative ordinal) = zero (s != negative) := by
  rw [zero, mul, magnitudeOf_zero, Nat.zero_mul, ofQuotient_zero _ quantaPerUnit_pos]

theorem zero_div_finite (s negative : Bool) {ordinal : Fin ordinalCount} (h : ordinal.val ≠ 0) :
    (zero s).div (finite negative ordinal) = zero (s != negative) := by
  have hpos : 0 < magnitudeOf ordinal := by
    simpa [magnitudeOf_zero] using magnitudeOf_lt_magnitudeOf (Nat.pos_of_ne_zero h)
  rw [zero, div, if_neg h, magnitudeOf_zero, Nat.zero_mul, ofQuotient_zero _ hpos]

theorem mul_zeros (s t : Bool) (y : Binary64) :
    SameNumber ((zero s).mul y) ((zero t).mul y) := by
  cases y with
  | nan => exact .refl _
  | infinite negative => exact .refl _
  | finite negative ordinal =>
    rw [zero_mul_finite, zero_mul_finite]
    exact .zeros _ _

theorem zeros_div (s t : Bool) (y : Binary64) :
    SameNumber ((zero s).div y) ((zero t).div y) := by
  cases y with
  | nan => exact .refl _
  | infinite negative => exact .zeros _ _
  | finite negative ordinal =>
    by_cases hzero : ordinal.val = 0
    · -- a quotient of zeros is no number, whatever their signs
      have hnan : ∀ sign, (zero sign).div (finite negative ordinal) = nan := by
        intro sign
        rw [zero, div, if_pos hzero, if_pos rfl]
      rw [hnan, hnan]
      exact .refl _
    · rw [zero_div_finite _ _ hzero, zero_div_finite _ _ hzero]
      exact .zeros _ _

namespace SameNumber

theorem isZero_eq (h : SameNumber x y) : x.isZero = y.isZero := by
  rcases h.cases with rfl | ⟨s, t, rfl, rfl⟩ <;> rfl

theorem neg (h : SameNumber x y) : SameNumber x.neg y.neg := h.map fun _ _ => .zeros _ _

/-- What is symmetric keeps the number if it keeps that of either zero on the left. -/
theorem symmetric {f : Binary64 → Binary64 → Binary64} (hcomm : ∀ x y, f x y = f y x)
    (hzeros : ∀ s t y, SameNumber (f (zero s) y) (f (zero t) y)) (hx : SameNumber x x')
    (hy : SameNumber y y') : SameNumber (f x y) (f x' y') := by
  refine (hx.map (f := (f · y)) fun s t => hzeros s t y).trans ?_
  rw [hcomm x' y, hcomm x' y']
  exact hy.map (f := (f · x')) fun s t => hzeros s t x'

theorem add (hx : SameNumber x x') (hy : SameNumber y y') : SameNumber (x.add y) (x'.add y') :=
  symmetric add_comm add_zeros hx hy

theorem sub (hx : SameNumber x x') (hy : SameNumber y y') : SameNumber (x.sub y) (x'.sub y') :=
  hx.add hy.neg

theorem mul (hx : SameNumber x x') (hy : SameNumber y y') : SameNumber (x.mul y) (x'.mul y') :=
  symmetric mul_comm mul_zeros hx hy

/-- A divisor other than zero has one value. -/
theorem div (hx : SameNumber x x') (hy : SameNumber y y') (hzero : y.isZero = false) :
    SameNumber (x.div y) (x'.div y') := by
  rcases hy.cases with rfl | ⟨s, t, rfl, -⟩
  · exact hx.map (f := (·.div y)) fun s t => zeros_div s t y
  · cases hzero

/-- **Operators keep the number**: on other values of the same numbers they have another value of
the same number. -/
theorem apply (hx : SameNumber x x') (hy : SameNumber y y') {op : Operator}
    (h : op.apply x y = .ok z) : ∃ z', op.apply x' y' = .ok z' ∧ SameNumber z z' := by
  cases op with
  | plus =>
    cases h
    exact ⟨_, rfl, hx.add hy⟩
  | minus =>
    cases h
    exact ⟨_, rfl, hx.sub hy⟩
  | times =>
    cases h
    exact ⟨_, rfl, hx.mul hy⟩
  | _ =>
    -- division is left, which fails for both divisors or for neither
    rw [Operator.apply] at h ⊢
    cases hzero : y.isZero with
    | true =>
      rw [hzero] at h
      cases h
    | false =>
      rw [hzero] at h
      cases h
      rw [← hy.isZero_eq, hzero]
      exact ⟨_, rfl, hx.div hy hzero⟩

end SameNumber

/-! ## Rounding and acceptance -/

theorem roundToWhole_zero (s : Bool) : (zero s).roundToWhole = zero s := by
  have hround : roundHalfUp 0 quantaPerUnit = 0 :=
    Nat.div_eq_of_lt (by have := quantaPerUnit_pos; omega)
  rw [zero, roundToWhole, magnitudeOf_zero, hround, Nat.zero_mul, ofQuotient_zero s Nat.one_pos,
    zero]

/-- **A zero is rounded to itself**, to any number of places. -/
theorem roundTo_zero (places : Nat) (s : Bool) : (zero s).roundTo places = zero s := by
  have hpower := isAtLeast_power_ten places
  unfold roundTo
  generalize ten.power places = factor at hpower
  cases hpower with
  | infinite => rfl
  | finite hlarge =>
    have hbelow : (zero s).abs.lt wholeFrom = true := by cases s <;> decide +kernel
    dsimp only
    rw [zero_mul_finite, Bool.bne_false, hbelow, roundToWhole_zero,
      zero_div_finite _ _ (ne_zero_of_le_magnitudeOf hlarge), Bool.bne_false]
    rfl

theorem accept_zero (places : Nat) (s : Bool) : (zero s).accept places = .ok (zero s) := by
  rw [accept, roundTo_zero]
  rfl

theorem SameNumber.accept (h : SameNumber x y) (hx : x.accept places = .ok x') :
    ∃ y', y.accept places = .ok y' ∧ SameNumber x' y' := by
  rcases h.cases with rfl | ⟨s, t, rfl, rfl⟩
  · exact ⟨x', hx, .refl x'⟩
  · rw [accept_zero] at hx
    cases hx
    exact ⟨zero t, accept_zero places t, .zeros s t⟩

end Binary64

/-! ## Writing -/

open Binary64

/-- Trimming leaves one zero of a zero, and no sign. -/
theorem dropFractionZeros_placePoint_zero (places : Nat) (negative : Bool) :
    dropFractionZeros (signText negative ++ placePoint places 0) = ['0'] := by
  rcases Nat.eq_zero_or_pos places with rfl | hpos
  · cases negative <;> decide
  · obtain ⟨n, rfl⟩ := Nat.exists_eq_succ_of_ne_zero hpos.ne'
    have hpad : padStart (n + 1) ['0'] = List.replicate (n + 1) '0' := List.replicate_succ'.symm
    have hplaces : placePoint (n + 1) 0 = ['0'] ++ '.' :: List.replicate (n + 1) '0' := by
      rw [placePoint, if_neg (Nat.succ_ne_zero n), Nat.zero_div, Nat.zero_mod,
        show digitsOf 0 = ['0'] by decide, hpad]
    have htrim : Text.trimEndBy (· == '0') (List.replicate (n + 1) '0') = [] := by
      simp [Text.trimEndBy]
    have hdigits : ∀ c ∈ List.replicate (n + 1) '0', c.isDigit = true :=
      fun c hc => (List.eq_of_mem_replicate hc).symm ▸ rfl
    rw [hplaces, dropFractionZeros_eq (by decide) (List.all_eq_true.mp rfl) hdigits, if_pos htrim]
    cases negative <;> decide

theorem write_zero (style : Style) (s : Bool) : style.write (zero s) = ['0'] := by
  have hunits : roundEven (0 * 10 ^ style.places) quantaPerUnit = 0 := by
    have hself := roundEven_mul_self 0 quantaPerUnit quantaPerUnit_pos
    rwa [Nat.zero_mul] at hself ⊢
  have hfixed : (zero s).fixed style.places = signText s ++ placePoint style.places 0 := by
    rw [zero, fixed, magnitudeOf_zero, hunits]
  have hnarrow : (style.scientific && (zero s).isFinite && !(zero s).isZero &&
      decide ((digitCeiling : Int) < (zero s).digitsBeforePoint)) = false := by
    rw [show (zero s).isZero = true from rfl, Bool.not_true, Bool.and_false, Bool.false_and]
  unfold Style.write
  dsimp only
  rw [roundTo_zero, hnarrow, hfixed, dropFractionZeros_placePoint_zero, if_neg Bool.false_ne_true]
  cases style.grouping <;> decide

/-- **One number is written in one way.** -/
theorem Binary64.SameNumber.write_eq {x y : Binary64} (h : SameNumber x y) (style : Style) :
    style.write x = style.write y := by
  rcases h.cases with rfl | ⟨s, t, rfl, rfl⟩
  · rfl
  · rw [write_zero, write_zero]

/-- A zero is written without its sign. -/
theorem write_dropZeroSign (style : Style) (x : Binary64) :
    style.write x.dropZeroSign = style.write x :=
  ((sameNumber_dropZeroSign x).write_eq style).symm

end Keypad
