import Mathlib.Algebra.Order.Floor.Ring
import Mathlib.Data.Int.Log
import Mathlib.Data.Rat.Floor
import Mathlib.Tactic.NormNum
import Mathlib.Tactic.Positivity

/-!
# Rounding to a double

A number is rounded to the nearest binary64 number, a tie to the even one.
Whole numbers below `2^53` are doubles, and so are kept.
-/

set_option autoImplicit false

namespace Radar.Doubles

/-- The nearest whole number, in a tie the even one. -/
def roundEven (x : ℚ) : ℤ :=
  if x-⌊x⌋ < 1/2 then ⌊x⌋
  else if 1/2 < x-⌊x⌋ then ⌊x⌋+1
  else if ⌊x⌋ % 2 = 0 then ⌊x⌋
  else ⌊x⌋+1

/-- The exponent of the last bit. -/
def lastBit (x : ℚ) : ℤ := max (Int.log 2 |x|-52) (-1074)

/-- The nearest double, as if there were no greatest one. -/
def toDouble (x : ℚ) : ℚ := roundEven (x/(2:ℚ)^(lastBit x))*(2:ℚ)^(lastBit x)

theorem roundEven_intCast (n : ℤ) : roundEven n = n := by
  rw [roundEven, Int.floor_intCast, sub_self, if_pos (by norm_num)]

theorem lastBit_natCast {n : ℕ} (h : n < 2^53) : lastBit n ≤ 0 := by
  have hlog : Int.log 2 |(n : ℚ)| ≤ 52 := by
    rw [Nat.abs_cast, Int.log_natCast]
    have hlt : Nat.log 2 n < 53 := Nat.log_lt_of_lt_pow' (by decide) h
    omega
  rw [lastBit]
  omega

theorem toDouble_natCast {n : ℕ} (h : n < 2^53) : toDouble n = n := by
  obtain ⟨k,hk⟩ := Int.eq_ofNat_of_zero_le (neg_nonneg.mpr (lastBit_natCast h))
  have hbit : lastBit n = -(k : ℤ) := by
    rw [← neg_neg (lastBit n), hk]
  have hpow : (2:ℚ)^k ≠ 0 := by positivity
  have hwhole : (n : ℚ)/(2:ℚ)^(lastBit n) = ((n*2^k : ℤ) : ℚ) := by
    rw [hbit, zpow_neg, zpow_natCast, div_inv_eq_mul]
    push_cast
    rfl
  rw [toDouble, hwhole, roundEven_intCast, hbit, zpow_neg, zpow_natCast]
  push_cast
  rw [mul_assoc, mul_inv_cancel₀ hpow, mul_one]

/-- A rounded number that is no infinity. -/
def InRange (x : ℚ) : Prop := |x| < (2^1024 : ℕ)

instance (x : ℚ) : Decidable (InRange x) := inferInstanceAs (Decidable (_ < _))

theorem inRange_natCast {n : ℕ} (h : n < 2^53) : InRange n := by
  have hpow : ∀ k, 53 ≤ k → n < 2^k :=
    fun k hk => Nat.lt_of_lt_of_le h (Nat.pow_le_pow_right (by decide) hk)
  rw [InRange, Nat.abs_cast, Nat.cast_lt]
  exact hpow 1024 (by decide)

/-- Towards zero. -/
def truncate (x : ℚ) : ℤ := x.num.tdiv x.den

theorem truncate_natCast (n : ℕ) : truncate n = n := by
  rw [truncate, Rat.num_natCast, Rat.den_natCast]
  exact Int.tdiv_one n

end Radar.Doubles
