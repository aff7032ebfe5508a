import Space2.Base.LuaText
import Mathlib

/-!
# Lua arithmetic on whole numbers

Integers of 64 bits wrap around. As soon as one operand is a double the result is the double
nearest to the exact result, and an infinite one from `2 ^ 1024` on. A whole number past the
64 bits stays far outside of them when other numbers are added to it.
-/
namespace Space2.Base

/-- Rounding keeps a power of two below. -/
theorem pow_le_roundNat {n k : Nat} (hk : 53 ≤ k) (h : 2 ^ k ≤ n) : 2 ^ k ≤ roundNat n := by
  have hlog : k ≤ Nat.log2 n := (Nat.le_log2 (by have := Nat.two_pow_pos k; omega)).mpr h
  have hpower : 2 ^ Nat.log2 n = 2 ^ 52 * 2 ^ (Nat.log2 n - 52) := by
    rw [← pow_add]
    congr 1
    omega
  have hpos : n ≠ 0 := by have := Nat.two_pow_pos k; omega
  have hself : 2 ^ 52 * 2 ^ (Nat.log2 n - 52) ≤ n := hpower ▸ Nat.log2_self_le hpos
  have hquotient : 2 ^ 52 ≤ n / 2 ^ (Nat.log2 n - 52) :=
    (Nat.le_div_iff_mul_le (by positivity)).mpr hself
  have hleading : 2 ^ k ≤ 2 ^ 52 * 2 ^ (Nat.log2 n - 52) :=
    hpower ▸ Nat.pow_le_pow_right (by decide) hlog
  have hlarge : ¬ n < 2 ^ 53 := by
    have := Nat.pow_le_pow_right (show 0 < 2 by decide) hk
    omega
  rw [roundNat, if_neg hlarge]
  dsimp only
  split_ifs
  · exact hleading.trans (Nat.mul_le_mul_right _ hquotient)
  · exact hleading.trans (Nat.mul_le_mul_right _ (by omega))

/-- Rounding does not double a number. -/
theorem roundNat_le_two_mul (n : Nat) : roundNat n ≤ 2 * n := by
  unfold roundNat
  dsimp only
  split_ifs with hsmall
  · omega
  · exact (Nat.div_mul_le_self n _).trans (by omega)
  · have hself : 2 ^ (Nat.log2 n - 52) ≤ n :=
      (Nat.pow_le_pow_right (by decide) (by omega)).trans (Nat.log2_self_le (by omega))
    have := Nat.div_mul_le_self n (2 ^ (Nat.log2 n - 52))
    rw [Nat.add_mul]
    omega

namespace Number

/-- The double nearest to a whole number. -/
def nearest (n : Int) : LuaNumber :=
  if roundNat n.natAbs < 2 ^ 1024 then .finite (toDouble n) else .infinite (n < 0)

/-- The whole number a finite operand stands for beside a double. -/
def asDouble : Number → Option Int
  | integer n => some ⌊toDouble n.toInt⌋
  | float (.finite q) => some ⌊q⌋
  | float _ => none

def doubleResult (op : Int → Int → Int) (a b : Number) : LuaNumber :=
  match a.asDouble, b.asDouble with
  | some x, some y => nearest (op x y)
  | _, _ => .infinite false

/-- `a * b` of whole numbers, an infinite one being positive. -/
def mul : Number → Number → Number
  | integer m, integer n => integer (m * n)
  | a, b => float (doubleResult (· * ·) a b)

/-- `a + b` of whole numbers, an infinite one being positive. -/
def add : Number → Number → Number
  | integer m, integer n => integer (m + n)
  | a, b => float (doubleResult (· + ·) a b)

def neg : Number → Number
  | integer n => integer (-n)
  | float (.finite q) => float (.finite (-q))
  | float (.infinite negative) => float (.infinite !negative)
  | float .nan => float .nan

/-- A double of `2 ^ k` at least. -/
inductive Huge (k : Nat) : Number → Prop
  | finite {q : ℚ} (whole : q = ⌊q⌋) (large : 2 ^ k ≤ ⌊q⌋) : Huge k (float (.finite q))
  | infinite : Huge k (float (.infinite false))

variable {a b : Number} {j k : Nat} {n : Int}

theorem toDouble_whole (n : Int) : toDouble n = ⌊toDouble n⌋ := by
  have hcast : toDouble n = ((n.sign * roundNat n.natAbs : Int) : ℚ) := by
    rw [toDouble]
    norm_cast
  rw [hcast, Int.floor_intCast]

theorem floor_toDouble (n : Int) : ⌊toDouble n⌋ = n.sign * roundNat n.natAbs := by
  have hcast : toDouble n = ((n.sign * roundNat n.natAbs : Int) : ℚ) := by
    rw [toDouble]
    norm_cast
  rw [hcast, Int.floor_intCast]

/-- The double nearest to a large number is large. -/
theorem nearest_huge (hk : 53 ≤ k) (h : 2 ^ k ≤ n) : Huge k (float (nearest n)) := by
  have hpos : 0 < n := lt_of_lt_of_le (by positivity) h
  have hnat : 2 ^ k ≤ n.natAbs := by
    zify
    rwa [abs_of_pos hpos]
  unfold nearest
  split_ifs
  · refine .finite (toDouble_whole n) ?_
    rw [floor_toDouble, Int.sign_eq_one_of_pos hpos, one_mul]
    exact_mod_cast pow_le_roundNat hk hnat
  · rw [decide_eq_false (by omega)]
    exact .infinite

theorem Huge.asDouble (h : Huge k a) : a.asDouble = none ∨ ∃ x, a.asDouble = some x ∧ 2 ^ k ≤ x := by
  cases h with
  | finite _ hlarge => exact .inr ⟨_, rfl, hlarge⟩
  | infinite => exact .inl rfl

/-- An integer becomes a double that is not far below. -/
theorem asDouble_integer_bound (n : Int64) : ∃ x, (integer n).asDouble = some x ∧ -2 ^ 64 ≤ x := by
  refine ⟨_, rfl, ?_⟩
  have hlow := n.le_toInt
  have hhigh := n.toInt_lt
  rw [floor_toDouble]
  have hround := roundNat_le_two_mul n.toInt.natAbs
  rcases Int.lt_trichotomy n.toInt 0 with hsign | hsign | hsign
  · rw [Int.sign_eq_neg_one_of_neg hsign]
    omega
  · rw [hsign]
    decide
  · rw [Int.sign_eq_one_of_pos hsign]
    omega

theorem Huge.not_integer (h : Huge k a) (m : Int64) : a ≠ integer m := by
  rintro rfl
  cases h

/-- A sum with a huge part is huge. -/
theorem Huge.add (hk : 65 ≤ k) (ha : Huge (k + 1) a)
    (hb : (∃ m, b = integer m) ∨ Huge (k + 1) b) : Huge k (a.add b) ∧ Huge k (b.add a) := by
  have hbound : b.asDouble = none ∨ ∃ y, b.asDouble = some y ∧ -2 ^ 64 ≤ y := by
    rcases hb with ⟨m, rfl⟩ | hb
    · exact .inr (asDouble_integer_bound m)
    · rcases hb.asDouble with hnone | ⟨y, hy, hlarge⟩
      · exact .inl hnone
      · have : (0 : Int) ≤ 2 ^ (k + 1) := by positivity
        exact .inr ⟨y, hy, by omega⟩
  have hpower : (2 : Int) ^ 65 ≤ 2 ^ k := pow_le_pow_right₀ (by decide) hk
  have hdouble : ∀ op : Int → Int → Int, (∀ x y, op x y = x + y) →
      Huge k (float (doubleResult op a b)) ∧ Huge k (float (doubleResult op b a)) := by
    intro op hop
    unfold doubleResult
    rcases ha.asDouble with hnone | ⟨x, hx, hlarge⟩
    · rw [hnone]
      refine ⟨.infinite, ?_⟩
      cases b.asDouble <;> exact .infinite
    · rcases hbound with hnone | ⟨y, hy, hlow⟩
      · rw [hx, hnone]
        exact ⟨.infinite, .infinite⟩
      · rw [hx, hy]
        rw [pow_succ] at hlarge
        refine ⟨nearest_huge (by omega) ?_, nearest_huge (by omega) ?_⟩
        · rw [hop]
          omega
        · rw [hop]
          omega
  obtain ⟨hleft, hright⟩ := hdouble (· + ·) fun _ _ => rfl
  cases ha <;> cases b <;> exact ⟨hleft, hright⟩

/-- A product with a huge part is huge. -/
theorem Huge.mul {factor : Int64} (ha : Huge k a) (hk : 53 ≤ k) (hlow : 1 ≤ factor.toInt)
    (hsmall : factor.toInt < 2 ^ 53) (hpower : 2 ^ j ≤ factor.toInt) :
    Huge (k + j) (a.mul (integer factor)) := by
  have hfactor : (integer factor).asDouble = some factor.toInt := by
    have hexact := toDouble_of_small (n := factor.toInt) (by omega)
    change some ⌊toDouble factor.toInt⌋ = _
    rw [hexact, Int.floor_intCast]
  have hresult : Huge (k + j) (float (doubleResult (· * ·) a (integer factor))) := by
    unfold doubleResult
    rcases ha.asDouble with hnone | ⟨x, hx, hlarge⟩
    · rw [hnone]
      exact .infinite
    · rw [hx, hfactor]
      refine nearest_huge (by omega) ?_
      rw [pow_add]
      exact mul_le_mul hlarge hpower (by positivity) (by have : (0 : Int) ≤ 2 ^ k := by positivity
                                                         omega)
  cases ha <;> exact hresult

end Number

end Space2.Base
