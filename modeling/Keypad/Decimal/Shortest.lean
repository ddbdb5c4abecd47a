import Keypad.Decimal.Scientific

/-!
# The shortest decimal that reads back

Among the decimals that read back as a value, the shortest has the fewest digits; of several
with as few digits it is the one nearest to the value, and halfway between two the larger.

## Main definitions

* `Binary64.shortest`: that decimal, for a finite value
* `Decimal.positional`: a decimal written without an exponent

## Main results

* `toBinary64_shortest`: the shortest decimal reads back
-/

namespace Keypad

namespace Decimal

/-- A decimal in units of `10 ^ unit`, with a power of ten written as one digit. -/
def onGrid (negative : Bool) (digits : Nat) (unit : Int) (units : Nat) : Decimal :=
  if units = 10 ^ digits then ⟨negative, 1, unit + digits⟩ else ⟨negative, units, unit⟩

/-- The two neighbours of a quotient among the whole numbers of units `10 ^ unit`, and whether
the upper one is at least as near. -/
def neighbours (unit : Int) (num den : Nat) : Nat × Nat × Bool :=
  let (n, d) :=
    if 0 ≤ unit then (num, den * 10 ^ unit.toNat) else (num * 10 ^ (-unit).toNat, den)
  (n / d, n / d + 1, decide (d ≤ 2 * (n % d)))

/-- The nearer neighbour of `x` with the given number of digits that reads back as `x`. -/
def withDigits? (x : Binary64) (digits : Nat) : Option Decimal :=
  let unit := decade x.magnitude quantaPerUnit - digits + 1
  let sides := neighbours unit x.magnitude quantaPerUnit
  let low := onGrid x.isNegative digits unit sides.1
  let high := onGrid x.isNegative digits unit sides.2.1
  (if sides.2.2 then [high, low] else [low, high]).find? fun d => decide (d.toBinary64 = x)

/-- The whole expansion of a finite value: one quantum is `5 ^ 1074 · 10 ^ -1074`. -/
def expansion (x : Binary64) : Decimal :=
  ⟨x.isNegative, x.magnitude * 5 ^ quantumPlaces, -(quantumPlaces : Int)⟩

/-- A decimal without an exponent: digits, then zeros up to the point, or a point inside. -/
def positional (d : Decimal) : Text :=
  signText d.negative ++
    if 0 ≤ d.exponent then digitsOf (d.coefficient * 10 ^ d.exponent.toNat)
    else placePoint (-d.exponent).toNat d.coefficient

end Decimal

/-- The shortest decimal that reads back as a finite value.  Seventeen digits always suffice;
the whole expansion stands behind them. -/
def Binary64.shortest (x : Binary64) : Decimal :=
  if x.magnitude = 0 then ⟨x.isNegative, 0, 0⟩
  else (((List.range 17).map (· + 1)).findSome? (Decimal.withDigits? x)).getD (.expansion x)

/-! ## The shortest decimal reads back -/

namespace Decimal

theorem toBinary64_of_withDigits? {x : Binary64} {digits : Nat} {d : Decimal}
    (h : withDigits? x digits = some d) : d.toBinary64 = x := by
  unfold withDigits? at h
  simpa using List.find?_some h

/-- The expansion of a nonzero value has too many digits to be taken for a zero. -/
theorem length_digitsOf_expansion (m : Nat) (hm : 0 < m) :
    quantumPlaces ≤ (digitsOf (m * 5 ^ quantumPlaces)).length + exponentBound := by
  by_cases h : (digitsOf (m * 5 ^ quantumPlaces)).length ≤ 674
  · have h1 := (Nat.length_toDigits_le_iff (by decide) (by decide)).1 h
    have h2 : 10 ^ 674 ≤ 5 ^ quantumPlaces := by decide +kernel
    have h3 : 5 ^ quantumPlaces ≤ m * 5 ^ quantumPlaces := Nat.le_mul_of_pos_left _ hm
    omega
  · have : quantumPlaces = 1074 := rfl
    have : exponentBound = 400 := rfl
    omega

theorem toBinary64_expansion {x : Binary64} (hm : x.magnitude ≠ 0) :
    (expansion x).toBinary64 = x := by
  cases x with
  | nan => exact absurd rfl hm
  | infinite _ => exact absurd rfl hm
  | finite negative ordinal =>
    change magnitudeOf ordinal ≠ 0 at hm
    have hpos : 0 < magnitudeOf ordinal := by omega
    have hq : (0 : Nat) < quantumPlaces := by decide
    have hc : magnitudeOf ordinal * 5 ^ quantumPlaces ≠ 0 :=
      Nat.mul_ne_zero hm (Nat.pos_iff_ne_zero.1 (Nat.pow_pos (by decide)))
    have he : ¬(0 : Int) ≤ -(quantumPlaces : Int) := by omega
    have hp : (- -(quantumPlaces : Int)).toNat = quantumPlaces := by omega
    have hl : ¬(digitsOf (magnitudeOf ordinal * 5 ^ quantumPlaces)).length + exponentBound
        < quantumPlaces := by
      have := length_digitsOf_expansion _ hpos
      omega
    simp only [expansion, toBinary64, Binary64.magnitude, Binary64.isNegative, hc, he, hp, hl,
      if_false]
    rw [Nat.mul_assoc, quantaPerUnit, ← Nat.mul_pow, show 5 * 2 = 10 from rfl]
    exact Binary64.ofQuotient_magnitudeOf negative ordinal _ (Nat.pow_pos (by decide))

end Decimal

theorem Binary64.finite_eq_zero_of_magnitude {x : Binary64} (hx : x.isFinite = true)
    (hm : x.magnitude = 0) : x = .zero x.isNegative := by
  cases x with
  | nan => cases hx
  | infinite _ => cases hx
  | finite negative ordinal =>
    change magnitudeOf ordinal = 0 at hm
    by_cases h0 : ordinal.val = 0
    · simp only [isNegative, zero, finite.injEq, true_and]
      exact Fin.ext h0
    · have := magnitudeOf_lt_magnitudeOf (m := 0) (n := ordinal) (by omega)
      omega

/-- **The shortest decimal reads back** as the value it was made from. -/
theorem Binary64.toBinary64_shortest {x : Binary64} (hx : x.isFinite = true) :
    x.shortest.toBinary64 = x := by
  unfold shortest
  split
  · rename_i hm
    exact (finite_eq_zero_of_magnitude hx hm).symm
  · rename_i hm
    cases hf : ((List.range 17).map (· + 1)).findSome? (Decimal.withDigits? x) with
    | none => exact Decimal.toBinary64_expansion hm
    | some d =>
      obtain ⟨digits, _, hd⟩ := List.exists_of_findSome?_eq_some hf
      exact Decimal.toBinary64_of_withDigits? hd

end Keypad
