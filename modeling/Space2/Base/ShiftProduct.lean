import Mathlib

/-!
# A product by shifting and adding

A number is multiplied by adding shifted copies of it, one for each bit of the
other factor. If the shift is additive, sums of a member with itself vanish and the
shifts of one member spell every member, this product is commutative and
associative, whatever the shift reduces by.
-/
namespace Space2.Base

variable {A : Type*} [AddCommGroup A] (shift : A →+ A)

/-- The copies of `x` for the first bits of a factor. -/
def shiftSum : Nat → A → (Nat → Bool) → A
  | 0, _, _ => 0
  | count + 1, x, bits =>
    (if bits 0 = true then x else 0) + shiftSum count (shift x) fun k => bits (k + 1)

theorem shiftSum_succ (count : Nat) (x : A) (bits : Nat → Bool) :
    shiftSum shift (count + 1) x bits =
      (if bits 0 = true then x else 0) + shiftSum shift count (shift x) fun k => bits (k + 1) := rfl

theorem shiftSum_add (count : Nat) (x y : A) (bits : Nat → Bool) :
    shiftSum shift count (x + y) bits = shiftSum shift count x bits + shiftSum shift count y bits := by
  induction count generalizing x y bits with
  | zero => exact (add_zero 0).symm
  | succ count ih =>
    rw [shiftSum_succ, shiftSum_succ, shiftSum_succ, map_add, ih, add_add_add_comm]
    congr 1
    split_ifs
    · rfl
    · exact (add_zero 0).symm

@[simp] theorem shiftSum_zero (count : Nat) (bits : Nat → Bool) : shiftSum shift count 0 bits = 0 := by
  induction count generalizing bits with
  | zero => rfl
  | succ count ih => rw [shiftSum_succ, map_zero, ih, ite_self, add_zero]

theorem shiftSum_shift (count : Nat) (x : A) (bits : Nat → Bool) :
    shift (shiftSum shift count x bits) = shiftSum shift count (shift x) bits := by
  induction count generalizing x bits with
  | zero => exact map_zero shift
  | succ count ih =>
    rw [shiftSum_succ, shiftSum_succ, map_add, ih, apply_ite shift, map_zero]

theorem shiftSum_xor (hdouble : ∀ x : A, x + x = 0) (count : Nat) (x : A) (bits bits' : Nat → Bool) :
    shiftSum shift count x (fun k => bits k ^^ bits' k) =
      shiftSum shift count x bits + shiftSum shift count x bits' := by
  induction count generalizing x bits bits' with
  | zero => exact (add_zero 0).symm
  | succ count ih =>
    rw [shiftSum_succ, shiftSum_succ, shiftSum_succ, ih, add_add_add_comm]
    congr 1
    cases bits 0 <;> cases bits' 0 <;> simp [hdouble]

theorem shiftSum_congr {count : Nat} {bits bits' : Nat → Bool} (h : ∀ k < count, bits k = bits' k) (x : A) :
    shiftSum shift count x bits = shiftSum shift count x bits' := by
  induction count generalizing x bits bits' with
  | zero => rfl
  | succ count ih =>
    rw [shiftSum_succ, shiftSum_succ, h 0 (Nat.succ_pos count),
      ih fun k hk => h (k + 1) (Nat.succ_lt_succ hk)]

/-- The copies for two factors can be made in either order. -/
theorem shiftSum_comm (count count' : Nat) (x : A) (bits bits' : Nat → Bool) :
    shiftSum shift count (shiftSum shift count' x bits') bits =
      shiftSum shift count' (shiftSum shift count x bits) bits' := by
  induction count generalizing x bits with
  | zero => exact (shiftSum_zero shift count' bits').symm
  | succ count ih =>
    rw [shiftSum_succ, shiftSum_succ, shiftSum_shift, ih, shiftSum_add]
    congr 1
    split_ifs
    · rfl
    · exact (shiftSum_zero shift count' bits').symm

section Product

variable (count : Nat) (bits : A → Nat → Bool)

def shiftProduct (x y : A) : A := shiftSum shift count x (bits y)

variable {shift count bits} {one : A}
  (hone : ∀ y, shiftSum shift count one (bits y) = y)

include hone in
theorem shiftProduct_comm (x y : A) : shiftProduct shift count bits x y = shiftProduct shift count bits y x := by
  have hswap := shiftSum_comm shift count count one (bits y) (bits x)
  rwa [hone, hone] at hswap

include hone in
theorem shiftProduct_assoc (x y z : A) :
    shiftProduct shift count bits (shiftProduct shift count bits x y) z =
      shiftProduct shift count bits x (shiftProduct shift count bits y z) := by
  calc shiftProduct shift count bits (shiftProduct shift count bits x y) z
      = shiftProduct shift count bits (shiftProduct shift count bits y x) z := by
        rw [shiftProduct_comm hone x y]
    _ = shiftProduct shift count bits (shiftProduct shift count bits y z) x :=
        shiftSum_comm shift count count y (bits z) (bits x)
    _ = shiftProduct shift count bits x (shiftProduct shift count bits y z) :=
        shiftProduct_comm hone _ _

include hone in
theorem one_shiftProduct (y : A) : shiftProduct shift count bits one y = y := hone y

theorem shiftProduct_add_left (x y z : A) : shiftProduct shift count bits (x + y) z =
    shiftProduct shift count bits x z + shiftProduct shift count bits y z :=
  shiftSum_add shift count x y (bits z)

end Product

end Space2.Base
