/-!
# Binary64 values

A binary64 value is not-a-number, an infinity, or a signed finite magnitude.  The finite
magnitudes are numbered in increasing order: ordinal `0` is zero, ordinal `1` is the least
positive magnitude `2⁻¹⁰⁷⁴` (one *quantum*), and every finite magnitude is a whole number of
quanta.  So all arithmetic is exact integer arithmetic on quanta followed by one rounding.

## Main definitions

* `Binary64`, with `Binary64.magnitude` and `Binary64.quanta`, its size counted in quanta
* `Binary64.rank`, the order of values as an integer
* `Binary64.ofBits`, `Binary64.toBits`, the interchange word

## Main results

* `magnitudeOf_lt_magnitudeOf`: a larger ordinal is a larger magnitude
* `ofBits_toBits`: a value is read back from its word
-/

namespace Keypad

/-- Powers are those of the core library, also where algebraic ones are in scope. -/
@[default_instance 20000]
instance (priority := 2000) corePower {α : Type} [NatPow α] : Pow α Nat := instPowNat

/-- The number of finite magnitudes. -/
abbrev ordinalCount : Nat := 2047 * 2 ^ 52

/-- A binary64 floating-point value; all not-a-number payloads are one value. -/
inductive Binary64 where
  | nan
  | infinite (negative : Bool)
  | finite (negative : Bool) (ordinal : Fin ordinalCount)
  deriving DecidableEq, Repr

/-- One quantum is `2 ^ -1074`, so a finite value has at most so many binary, and as many
decimal, places. -/
def quantumPlaces : Nat := 1074

/-- The number of quanta in one unit. -/
def quantaPerUnit : Nat := 2 ^ quantumPlaces

theorem quantaPerUnit_pos : 0 < quantaPerUnit := Nat.pow_pos (by decide)

/-- The magnitude with the given ordinal, in quanta: below `2⁵³` they are all whole numbers,
and each further run of `2⁵²` ordinals has twice the spacing of the one before. -/
def magnitudeOf (ordinal : Nat) : Nat :=
  if ordinal < 2 ^ 52 then ordinal
  else (2 ^ 52 + ordinal % 2 ^ 52) * 2 ^ (ordinal / 2 ^ 52 - 1)

namespace Binary64

/-- The zero of the given sign. -/
def zero (negative : Bool) : Binary64 := .finite negative ⟨0, by decide⟩

/-- The number one. -/
def one : Binary64 := .finite false ⟨1023 * 2 ^ 52, by decide⟩

def isNaN : Binary64 → Bool
  | .nan => true
  | _ => false

def isFinite : Binary64 → Bool
  | .finite _ _ => true
  | _ => false

/-- Whether the sign is set; not-a-number has none. -/
def isNegative : Binary64 → Bool
  | .nan => false
  | .infinite negative => negative
  | .finite negative _ => negative

/-- The size of a finite value in quanta; `0` for the others. -/
def magnitude : Binary64 → Nat
  | .finite _ ordinal => magnitudeOf ordinal
  | _ => 0

/-- A finite value as a signed number of quanta; `0` for the others. -/
def quanta (x : Binary64) : Int :=
  if x.isNegative then -(x.magnitude : Int) else x.magnitude

/-- The place of a number in the order of values: both zeros stand at `0`, and the infinities
stand just outside the finite values. -/
def rank : Binary64 → Int
  | .nan => 0
  | .infinite negative => if negative then -(ordinalCount : Int) else ordinalCount
  | .finite negative ordinal => if negative then -(ordinal.val : Int) else ordinal.val

/-- Numeric order; false as soon as one side is not a number. -/
def lt (x y : Binary64) : Bool :=
  !x.isNaN && !y.isNaN && decide (x.rank < y.rank)

/-- Whether the value is one of the two zeros. -/
def isZero : Binary64 → Bool
  | .finite _ ordinal => ordinal.val == 0
  | _ => false

/-- The value without its sign. -/
def abs : Binary64 → Binary64
  | .nan => .nan
  | .infinite _ => .infinite false
  | .finite _ ordinal => .finite false ordinal

/-- The value with the other sign. -/
def neg : Binary64 → Binary64
  | .nan => .nan
  | .infinite negative => .infinite (!negative)
  | .finite negative ordinal => .finite (!negative) ordinal

/-! ## The interchange word -/

/-- The value of a 64-bit word: the top bit is the sign, and the rest is the ordinal, the
infinity at `ordinalCount`, or not-a-number above it. -/
def ofBits (word : UInt64) : Binary64 :=
  let negative := decide (2 ^ 63 ≤ word.toNat)
  let rest := word.toNat % 2 ^ 63
  if h : rest < ordinalCount then .finite negative ⟨rest, h⟩
  else if rest = ordinalCount then .infinite negative
  else .nan

/-- The 64-bit word of a value; not-a-number is written as the quiet one without a sign. -/
def toBits : Binary64 → UInt64
  | .nan => UInt64.ofNat (ordinalCount + 2 ^ 51)
  | .infinite negative => UInt64.ofNat ((if negative then 2 ^ 63 else 0) + ordinalCount)
  | .finite negative ordinal => UInt64.ofNat ((if negative then 2 ^ 63 else 0) + ordinal.val)

theorem ofBits_toBits (x : Binary64) : ofBits x.toBits = x := by
  cases x with
  | nan => decide
  | infinite negative => cases negative <;> decide
  | finite negative ordinal =>
    have h := ordinal.isLt
    have hc : ordinalCount = 9218868437227405312 := rfl
    cases negative
    · have hw : (UInt64.ofNat (0 + ordinal.val)).toNat = ordinal.val := by
        rw [UInt64.toNat_ofNat']; omega
      have hm : ordinal.val % 2 ^ 63 = ordinal.val := by omega
      simp only [toBits, ofBits, Bool.false_eq_true, if_false, hw, hm, h, dif_pos, Fin.eta]
      congr
      simp only [decide_eq_false_iff_not]; omega
    · have hw : (UInt64.ofNat (2 ^ 63 + ordinal.val)).toNat = 2 ^ 63 + ordinal.val := by
        rw [UInt64.toNat_ofNat']; omega
      have hm : (2 ^ 63 + ordinal.val) % 2 ^ 63 = ordinal.val := by omega
      simp only [toBits, ofBits, if_true, hw, hm, h, dif_pos, Fin.eta]
      congr
      simp only [decide_eq_true_eq]; omega

/-! ## Small laws -/

@[simp] theorem isFinite_zero (negative : Bool) : (zero negative).isFinite = true := rfl

@[simp] theorem neg_neg (x : Binary64) : x.neg.neg = x := by
  cases x <;> simp [neg]

end Binary64

/-- A larger ordinal is a larger magnitude. -/
theorem magnitudeOf_lt_magnitudeOf {m n : Nat} (h : m < n) : magnitudeOf m < magnitudeOf n := by
  have step : ∀ k : Nat, magnitudeOf k < magnitudeOf (k + 1) := by
    intro k
    unfold magnitudeOf
    by_cases h1 : k + 1 < 2 ^ 52
    · rw [if_pos h1, if_pos (by omega)]; omega
    · rw [if_neg h1]
      by_cases h2 : k < 2 ^ 52
      · have hk : k = 2 ^ 52 - 1 := by omega
        subst hk
        decide
      · rw [if_neg h2]
        by_cases h3 : (k + 1) % 2 ^ 52 = 0
        · have hd : (k + 1) / 2 ^ 52 - 1 = (k / 2 ^ 52 - 1) + 1 := by omega
          have hm : k % 2 ^ 52 = 2 ^ 52 - 1 := by omega
          rw [hd, h3, hm]
          generalize k / 2 ^ 52 - 1 = j
          rw [show 2 ^ (j + 1) = 2 ^ j * 2 from Nat.pow_succ ..]
          have hp : 0 < 2 ^ j := Nat.pow_pos (by decide)
          generalize 2 ^ j = p at hp
          omega
        · have hd : (k + 1) / 2 ^ 52 = k / 2 ^ 52 := by omega
          have hm : (k + 1) % 2 ^ 52 = k % 2 ^ 52 + 1 := by omega
          rw [hd, hm]
          exact Nat.mul_lt_mul_of_pos_right (by omega) (Nat.pow_pos (by decide))
  induction n with
  | zero => omega
  | succ n ih =>
    rcases Nat.lt_or_ge m n with hmn | hmn
    · exact Nat.lt_trans (ih hmn) (step n)
    · have : m = n := by omega
      exact this ▸ step m

end Keypad
