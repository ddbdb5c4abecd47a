import Keypad.Binary64.Arithmetic

/-!
# The decimal logarithm

The decimal logarithm of a value is computed in binary64 arithmetic.  The value is split into a
power of two and a mantissa near one; the natural logarithm of the mantissa is summed to a few
places more than a value holds and rounded, and the two parts are added up, each product and sum
rounded in turn.  So the result may be off in its last places, and just below a power of ten it
may reach the exponent of that power.

## Main definitions

* `roundUp`: a quotient to the next whole number
* `oddSeries`: the terms `1 / n + u / (n + 2) + u² / (n + 4) + …`
* `Binary64.naturalLog`: the natural logarithm of a quotient near one
* `Binary64.decimalLog`: the decimal logarithm of a magnitude

## Main results

* `le_roundUp_mul`, `roundUp_mul_lt`: rounding up adds less than one
-/

namespace Keypad

/-- The least whole number that is not below a quotient. -/
def roundUp (num den : Nat) : Nat := (num + den - 1) / den

theorem le_roundUp_mul (num : Nat) {den : Nat} (h : 0 < den) : num ≤ roundUp num den * den := by
  have hdm := Nat.div_add_mod (num + den - 1) den
  have hr := Nat.mod_lt (num + den - 1) h
  rw [roundUp, Nat.mul_comm]
  omega

theorem roundUp_mul_lt (num : Nat) {den : Nat} (h : 0 < den) :
    roundUp num den * den < num + den := by
  have := Nat.div_mul_le_self (num + den - 1) den
  rw [roundUp]
  omega

theorem roundUp_le_of_le_mul {num den bound : Nat} (h : num ≤ bound * den) :
    roundUp num den ≤ bound := by
  rcases Nat.eq_zero_or_pos den with rfl | hpos
  · simp [roundUp]
  · have hlt : roundUp num den * den < (bound + 1) * den := by
      have := roundUp_mul_lt num hpos
      rw [Nat.add_mul, Nat.one_mul]
      omega
    exact Nat.le_of_lt_succ (Nat.lt_of_mul_lt_mul_right hlt)

/-- The series is summed in units of `2 ^ -62`, nine places below those that a value holds. -/
def seriesUnit : Nat := 2 ^ 62

/-- With squares of at most a ninth, so many terms exhaust the places of the series. -/
def seriesTerms : Nat := 22

/-- The sum of `square ^ j / (n + 2 j)` over the first `terms` values of `j`, from the innermost
out.  The square and the sum are counted in units of the series, and each step is rounded up. -/
def oddSeries (square : Nat) : (terms n : Nat) → Nat
  | 0, _ => 0
  | terms + 1, n =>
    roundUp seriesUnit n + roundUp (square * oddSeries square terms (n + 2)) seriesUnit

namespace Binary64

/-- The natural logarithm of a quotient from a half to two.  With `t = (num - den) / (num + den)`
it is `2 t (1 + t² / 3 + t⁴ / 5 + …)`, and `t²` is at most a ninth.  The sum is rounded up to the
places of the series, and its product with `2 t` to nearest. -/
def naturalLog (num den : Nat) : Binary64 :=
  let difference := if num < den then den - num else num - den
  let sum := num + den
  let square := roundUp (difference ^ 2 * seriesUnit) (sum ^ 2)
  ofQuotient (decide (num < den))
    (2 * difference * oddSeries square seriesTerms 1 * quantaPerUnit) (sum * seriesUnit)

/-- The decimal logarithm of two, rounded down to 41 binary places, so that its products with
exponents are exact. -/
def logTwoHigh : Binary64 := ofQuotient false (661971961083 * quantaPerUnit) (2 ^ 41)

/-- What `logTwoHigh` leaves of the decimal logarithm of two. -/
def logTwoLow : Binary64 :=
  ofQuotient false (369423907715893078616 * quantaPerUnit) (10 ^ 33)

/-- The decimal logarithm of the base of the natural one. -/
def logEuler : Binary64 :=
  ofQuotient false (434294481903251816668 * quantaPerUnit) (10 ^ 21)

/-- The decimal logarithm of a positive number of quanta.  From one on the mantissa lies in
`[1, 2)`, and below one in `[1/2, 1)`, so that both parts have the same sign. -/
def decimalLog (quanta : Nat) : Binary64 :=
  let exponent := (quanta.log2 : Int) - quantumPlaces
  let below := exponent < 0
  let power := ofInt (if below then exponent + 1 else exponent)
  let mantissa := naturalLog quanta (2 ^ (if below then quanta.log2 + 1 else quanta.log2))
  ((power.mul logTwoLow).add (logEuler.mul mantissa)).add (power.mul logTwoHigh)

end Binary64

end Keypad
