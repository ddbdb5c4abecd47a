import Keypad.Binary64.Basic

/-!
# Rounding and arithmetic

Every operation computes its exact result as a quotient of whole numbers of quanta and rounds it
once, to the nearest value, ties to the even ordinal.

## Main definitions

* `roundEven`, `roundHalfUp`: a quotient to the nearest whole number, ties to even and upwards
* `Binary64.ofQuotient`: the value nearest to a quotient of quanta
* `Binary64.add`, `sub`, `mul`, `div`, `power`, `roundToWhole`

## Main results

* `roundEven_bounds`, `roundEven_mul_self`: the quotient lies within half a unit, and a whole
  quotient is kept
* `nearestOrdinal_magnitudeOf`: a magnitude is its own rounding
-/

namespace Keypad

/-- The whole number nearest to a quotient; halfway goes to the even neighbour. -/
def roundEven (num den : Nat) : Nat :=
  let low := num / den
  let rest := num % den
  if 2 * rest < den then low
  else if den < 2 * rest then low + 1
  else low + low % 2

/-- The whole number nearest to a quotient; halfway goes up. -/
def roundHalfUp (num den : Nat) : Nat := (2 * num + den) / (2 * den)

/-- A whole quotient is its own rounding. -/
theorem roundEven_mul_self (k den : Nat) (h : 0 < den) : roundEven (k * den) den = k := by
  unfold roundEven
  rw [Nat.mul_div_cancel k h, Nat.mul_mod_left]
  simp [h]

/-- The rounding of a quotient is at most half a unit away from it. -/
theorem roundEven_bounds (num den : Nat) (h : 0 < den) :
    2 * num ≤ (2 * roundEven num den + 1) * den ∧
      (2 * roundEven num den) * den ≤ 2 * num + den := by
  have hdm := Nat.div_add_mod num den
  have hr := Nat.mod_lt num h
  unfold roundEven
  simp only
  generalize num / den = low at hdm ⊢
  generalize num % den = rest at hdm hr ⊢
  subst hdm
  have hp : ∀ k : Nat, k * den = den * k := fun k => Nat.mul_comm k den
  split
  · rw [hp, hp]
    constructor <;> · simp only [Nat.mul_add, Nat.mul_left_comm den 2]; omega
  · split
    · rw [hp, hp]
      constructor <;> · simp only [Nat.mul_add, Nat.mul_left_comm den 2]; omega
    · rcases Nat.mod_two_eq_zero_or_one low with hl | hl <;> rw [hl, hp, hp] <;>
        constructor <;> · simp only [Nat.mul_add, Nat.mul_left_comm den 2]; omega

/-- The ordinal nearest to a quotient of quanta.  From `2⁵³` quanta on, the quotient is rounded
to a multiple of the spacing `2ᵉ` at its size; a carry into the next run needs no correction,
since the ordinals continue there. -/
def nearestOrdinal (num den : Nat) : Nat :=
  let e := (num / den).log2 - 52
  e * 2 ^ 52 + roundEven num (den * 2 ^ e)

/-- **Exactness**: the rounding of a magnitude, given by any quotient, is that magnitude. -/
theorem nearestOrdinal_magnitudeOf (n den : Nat) (hden : 0 < den) :
    nearestOrdinal (magnitudeOf n * den) den = n := by
  unfold nearestOrdinal
  simp only [Nat.mul_div_cancel _ hden]
  by_cases h : n < 2 ^ 52
  · have hm : magnitudeOf n = n := if_pos h
    have he : n.log2 - 52 = 0 := by
      have : n.log2 < 53 := by
        by_cases h0 : n = 0
        · subst h0; decide
        · exact (Nat.log2_lt h0).2 (by omega)
      omega
    rw [hm, he, Nat.pow_zero, Nat.mul_one, roundEven_mul_self _ _ hden]
    omega
  · have hm : magnitudeOf n = (2 ^ 52 + n % 2 ^ 52) * 2 ^ (n / 2 ^ 52 - 1) := if_neg h
    generalize hj : n / 2 ^ 52 - 1 = j at hm
    have hp : 0 < 2 ^ j := Nat.pow_pos (by decide)
    have hlow : 2 ^ (52 + j) ≤ magnitudeOf n := by
      rw [hm, Nat.pow_add]
      exact Nat.mul_le_mul_right _ (by omega)
    have hhigh : magnitudeOf n < 2 ^ (53 + j) := by
      rw [hm, Nat.pow_add]
      exact Nat.mul_lt_mul_of_pos_right (by omega) hp
    have hne : magnitudeOf n ≠ 0 := by
      have : 0 < 2 ^ (52 + j) := Nat.pow_pos (by decide)
      omega
    have hlog : (magnitudeOf n).log2 = 52 + j := by
      have h1 : 52 + j ≤ (magnitudeOf n).log2 := (Nat.le_log2 hne).2 hlow
      have h2 : (magnitudeOf n).log2 < 53 + j := (Nat.log2_lt hne).2 hhigh
      omega
    have he : 52 + j - 52 = j := by omega
    rw [hlog, he, hm, Nat.mul_assoc, Nat.mul_comm (2 ^ j) den,
      roundEven_mul_self _ _ (Nat.mul_pos hden hp)]
    omega

namespace Binary64

/-- The value nearest to a quotient of quanta, infinite beyond the largest finite value. -/
def ofQuotient (negative : Bool) (num den : Nat) : Binary64 :=
  if h : nearestOrdinal num den < ordinalCount then .finite negative ⟨nearestOrdinal num den, h⟩
  else .infinite negative

theorem ofQuotient_magnitudeOf (negative : Bool) (ordinal : Fin ordinalCount) (den : Nat)
    (hden : 0 < den) :
    ofQuotient negative (magnitudeOf ordinal * den) den = .finite negative ordinal := by
  unfold ofQuotient
  simp only [nearestOrdinal_magnitudeOf _ _ hden, ordinal.isLt, dif_pos, Fin.eta]

/-- The value nearest to a whole number. -/
def ofNat (n : Nat) : Binary64 := ofQuotient false (n * quantaPerUnit) 1

/-- The value nearest to an integer; zero has no sign. -/
def ofInt (n : Int) : Binary64 := ofQuotient (decide (n < 0)) (n.natAbs * quantaPerUnit) 1

/-- Addition.  A zero sum is negative only if both terms are. -/
def add : Binary64 → Binary64 → Binary64
  | .nan, _ => .nan
  | _, .nan => .nan
  | .infinite s, .infinite t => if s = t then .infinite s else .nan
  | .infinite s, .finite _ _ => .infinite s
  | .finite _ _, .infinite t => .infinite t
  | .finite s m, .finite t n =>
    let sum := (finite s m).quanta + (finite t n).quanta
    if sum = 0 then zero (s && t)
    else ofQuotient (decide (sum < 0)) sum.natAbs 1

/-- Subtraction adds the opposite. -/
def sub (x y : Binary64) : Binary64 := x.add y.neg

/-- Multiplication; zero times infinity is not a number. -/
def mul : Binary64 → Binary64 → Binary64
  | .nan, _ => .nan
  | _, .nan => .nan
  | .infinite s, .infinite t => .infinite (s != t)
  | .infinite s, .finite t n => if n.val = 0 then .nan else .infinite (s != t)
  | .finite s m, .infinite t => if m.val = 0 then .nan else .infinite (s != t)
  | .finite s m, .finite t n =>
    ofQuotient (s != t) (magnitudeOf m * magnitudeOf n) quantaPerUnit

/-- Division; a nonzero value over zero is infinite. -/
def div : Binary64 → Binary64 → Binary64
  | .nan, _ => .nan
  | _, .nan => .nan
  | .infinite _, .infinite _ => .nan
  | .infinite s, .finite t _ => .infinite (s != t)
  | .finite s _, .infinite t => zero (s != t)
  | .finite s m, .finite t n =>
    if n.val = 0 then
      if m.val = 0 then .nan else .infinite (s != t)
    else ofQuotient (s != t) (magnitudeOf m * quantaPerUnit) (magnitudeOf n)

/-- The nearest whole number, ties away from zero; the sign is kept, also on a zero. -/
def roundToWhole : Binary64 → Binary64
  | .finite negative ordinal =>
    ofQuotient negative
      (roundHalfUp (magnitudeOf ordinal) quantaPerUnit * quantaPerUnit) 1
  | x => x

/-- One run of repeated squaring: `result * base ^ n`, every product rounded.  `fuel` bounds the
number of halvings of `n`. -/
def powerLoop : (fuel : Nat) → (result base : Binary64) → (n : Nat) → Binary64
  | 0, result, _, _ => result
  | fuel + 1, result, base, n =>
    let result := if n % 2 = 1 then result.mul base else result
    if n / 2 = 0 then result else powerLoop fuel result (base.mul base) (n / 2)

/-- `base ^ n` by repeated squaring. -/
def power (base : Binary64) (n : Nat) : Binary64 := powerLoop (n + 1) one base n

/-- The value moved into an interval; not-a-number stays, and so does either zero inside. -/
def clamp (x low high : Binary64) : Binary64 :=
  if x.lt low then low else if high.lt x then high else x

end Binary64

end Keypad
