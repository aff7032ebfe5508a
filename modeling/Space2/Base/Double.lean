import Mathlib.Data.Rat.Cast.Defs
import Mathlib.Tactic.NormNum
import Mathlib.Tactic.Ring

/-!
# Doubles

A finite double stands for its rational value. An integer becomes the double
nearest to it, ties to even.
-/
namespace Space2.Base

/-- A natural number rounded to 53 significant bits, ties to even. -/
def roundNat (n : Nat) : Nat :=
  if n < 2 ^ 53 then n
  else
    let unit := 2 ^ (Nat.log2 n - 52)
    let quotient := n / unit
    let remainder := n % unit
    if 2 * remainder < unit ∨ (2 * remainder = unit ∧ quotient % 2 = 0) then quotient * unit
    else (quotient + 1) * unit

/-- The double nearest to an integer. -/
def toDouble (n : Int) : ℚ := n.sign * roundNat n.natAbs

theorem toDouble_of_small {n : Int} (h : n.natAbs < 2 ^ 53) : toDouble n = n := by
  rw [toDouble, roundNat, if_pos h, ← Int.cast_natCast, ← Int.cast_mul, Int.sign_mul_natAbs]

/-- Rounding keeps the leading bit. -/
theorem le_roundNat {n : Nat} (h : 2 ^ 63 ≤ n) : 2 ^ 63 ≤ roundNat n := by
  have hlog : 63 ≤ Nat.log2 n := (Nat.le_log2 (by omega)).mpr h
  have hpower : 2 ^ Nat.log2 n = 2 ^ 52 * 2 ^ (Nat.log2 n - 52) := by
    rw [← pow_add]
    congr 1
    omega
  have hself : 2 ^ 52 * 2 ^ (Nat.log2 n - 52) ≤ n := hpower ▸ Nat.log2_self_le (by omega)
  have hquotient : 2 ^ 52 ≤ n / 2 ^ (Nat.log2 n - 52) :=
    (Nat.le_div_iff_mul_le (by positivity)).mpr hself
  have hleading : 2 ^ 63 ≤ 2 ^ 52 * 2 ^ (Nat.log2 n - 52) :=
    hpower ▸ Nat.pow_le_pow_right (by decide) hlog
  rw [roundNat, if_neg (by omega)]
  dsimp only
  split_ifs
  · exact hleading.trans (Nat.mul_le_mul_right _ hquotient)
  · exact hleading.trans (Nat.mul_le_mul_right _ (by omega))

end Space2.Base
