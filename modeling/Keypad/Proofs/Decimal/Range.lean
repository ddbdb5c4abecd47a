import Keypad.Decimal.Numeral
import Mathlib.Tactic.Ring

/-!
# Decimal numbers in the finite range

A quotient far below the largest finite value is rounded to a finite one.

## Main results

* `nearestOrdinal_le`: the ordinal nearest to a quotient below a power of two
* `isFinite_toBinary64`: a decimal number without a positive exponent and of moderate size is
  finite
* `wholeOf_lt`: the size of a number by the length of its digits
-/

namespace Keypad

theorem roundEven_le (num den : Nat) : roundEven num den ≤ num / den + 1 := by
  unfold roundEven
  simp only
  split
  · omega
  · split <;> omega

/-- The ordinal nearest to a quotient below `2 ^ (53 + k)`: the spacing there is at most `2 ^ k`. -/
theorem nearestOrdinal_le {num den k : Nat} (h : num / den < 2 ^ (53 + k)) :
    nearestOrdinal num den ≤ (k + 2) * 2 ^ 52 := by
  unfold nearestOrdinal
  simp only
  generalize he : (num / den).log2 - 52 = e
  -- `e` is the exponent that brings the quotient into the range of 53 bits
  have hspacing : e ≤ k := by
    by_cases h0 : num / den = 0
    · rw [h0, Nat.log2_zero] at he
      omega
    · have := (Nat.log2_lt h0).2 h
      omega
  have hquotient : num / (den * 2 ^ e) < 2 ^ 53 := by
    rw [← Nat.div_div_eq_div_mul]
    refine Nat.div_lt_of_lt_mul ?_
    calc num / den < 2 ^ ((num / den).log2 + 1) := Nat.lt_log2_self
      _ ≤ 2 ^ (e + 53) := Nat.pow_le_pow_right (by decide) (by omega)
      _ = 2 ^ e * 2 ^ 53 := Nat.pow_add 2 e 53
  have hround := roundEven_le num (den * 2 ^ e)
  calc e * 2 ^ 52 + roundEven num (den * 2 ^ e)
      ≤ k * 2 ^ 52 + 2 ^ 53 := Nat.add_le_add (Nat.mul_le_mul_right _ hspacing) (by omega)
    _ = (k + 2) * 2 ^ 52 := by ring

theorem isFinite_ofQuotient (negative : Bool) {num den k : Nat} (hk : k + 2 < 2047)
    (h : num / den < 2 ^ (53 + k)) : (Binary64.ofQuotient negative num den).isFinite = true := by
  have hlt : nearestOrdinal num den < ordinalCount :=
    Nat.lt_of_le_of_lt (nearestOrdinal_le h) (Nat.mul_lt_mul_of_pos_right hk (by decide))
  rw [Binary64.ofQuotient, dif_pos hlt]
  rfl

/-- A decimal number without a positive exponent is finite, unless its coefficient is huge. -/
theorem isFinite_toBinary64 {d : Decimal} (hexponent : d.exponent ≤ 0) {n : Nat} (hn : n ≤ 1000)
    (hcoefficient : d.coefficient < 2 ^ n) : d.toBinary64.isFinite = true := by
  have hplaces : 53 + (n + 1021) = n + quantumPlaces := by
    unfold quantumPlaces
    omega
  have hquanta : d.coefficient * quantaPerUnit < 2 ^ (53 + (n + 1021)) := by
    rw [hplaces, Nat.pow_add]
    exact Nat.mul_lt_mul_of_pos_right hcoefficient quantaPerUnit_pos
  have hfinite : ∀ den, (Binary64.ofQuotient d.negative (d.coefficient * quantaPerUnit)
      den).isFinite = true := fun den =>
    isFinite_ofQuotient _ (by omega) (Nat.lt_of_le_of_lt (Nat.div_le_self _ den) hquanta)
  unfold Decimal.toBinary64
  split
  · rfl
  split
  · rename_i hsign
    have hzero : d.exponent.toNat = 0 := by omega
    rw [hzero, Nat.pow_zero, Nat.mul_one, if_neg (by decide)]
    exact hfinite 1
  · simp only
    split
    · rfl
    · exact hfinite _

/-- A run of digits denotes a number below the power of ten of its length. -/
theorem wholeOf_lt {digits : Text} (h : ∀ c ∈ digits, c.isDigit = true) :
    wholeOf digits < 10 ^ digits.length := by
  have hstep : ∀ start, Nat.ofDigitChars 10 digits start < (start + 1) * 10 ^ digits.length := by
    induction digits with
    | nil => intro start; simp
    | cons c rest ih =>
      intro start
      have hc := h c (by simp)
      simp only [Char.isDigit, Bool.and_eq_true, decide_eq_true_eq, ge_iff_le] at hc
      have hdigit : c.toNat - '0'.toNat ≤ 9 := by
        have : c.toNat ≤ 57 := hc.2
        have hzero : '0'.toNat = 48 := rfl
        omega
      rw [Nat.ofDigitChars_cons]
      refine Nat.lt_of_lt_of_le (ih (fun d hd => h d (by simp [hd])) _) ?_
      rw [List.length_cons, Nat.pow_succ, Nat.mul_comm (10 ^ rest.length) 10, ← Nat.mul_assoc]
      exact Nat.mul_le_mul_right _ (by omega)
  simpa [wholeOf] using hstep 0

end Keypad
