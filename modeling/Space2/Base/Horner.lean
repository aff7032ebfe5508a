import Mathlib

/-!
# Evaluating a list of coefficients

The first coefficient belongs to the highest power, and the list is evaluated as it
is read, by multiplying what was read so far.
-/
namespace Space2.Base

variable {R : Type*} [CommRing R]

def horner (r : R) (l : List R) : R := l.foldl (fun value c => value * r + c) 0

theorem horner_foldl (r : R) (l : List R) (start : R) :
    l.foldl (fun value c => value * r + c) start = start * r ^ l.length + horner r l := by
  induction l generalizing start with
  | nil => simp [horner]
  | cons c l ih =>
    rw [horner, List.foldl_cons, List.foldl_cons, ih, ih (0 * r + c), List.length_cons]
    ring

@[simp] theorem horner_nil (r : R) : horner r [] = 0 := rfl

theorem horner_cons (r c : R) (l : List R) : horner r (c :: l) = c * r ^ l.length + horner r l := by
  rw [horner, List.foldl_cons, horner_foldl, zero_mul, zero_add]

theorem horner_append (r : R) (l l' : List R) :
    horner r (l ++ l') = horner r l * r ^ l'.length + horner r l' := by
  rw [horner, List.foldl_append, horner_foldl]
  rfl

theorem horner_concat (r c : R) (l : List R) : horner r (l ++ [c]) = horner r l * r + c := by
  rw [horner_append, List.length_singleton, pow_one, horner_cons, horner_nil, List.length_nil,
    pow_zero, mul_one, add_zero]

theorem horner_replicate_zero (r : R) (n : Nat) : horner r (List.replicate n 0) = 0 := by
  induction n with
  | zero => rfl
  | succ n ih => rw [List.replicate_succ, horner_cons, ih, zero_mul, add_zero]

/-- A list to which a multiple of another one is added member by member. -/
theorem horner_zipWith (r factor : R) {l l' : List R} (h : l.length = l'.length) :
    horner r (List.zipWith (fun a b => a + b * factor) l l') = horner r l + horner r l' * factor := by
  induction l generalizing l' with
  | nil =>
    obtain rfl := List.length_eq_zero_iff.mp h.symm
    simp
  | cons a l ih =>
    cases l' with
    | nil => cases h
    | cons b l' =>
      have hlength : l.length = l'.length := Nat.succ.inj h
      rw [List.zipWith_cons_cons, horner_cons, horner_cons, horner_cons, ih hlength,
        List.length_zipWith, ← hlength, Nat.min_self]
      ring

/-- Something is added to one coefficient. -/
theorem horner_modify (r c : R) {l : List R} {k : Nat} (h : k < l.length) :
    horner r (l.modify k (· + c)) = horner r l + c * r ^ (l.length - 1 - k) := by
  induction l generalizing k with
  | nil => exact absurd h (Nat.not_lt_zero k)
  | cons a l ih =>
    cases k with
    | zero =>
      rw [List.modify_zero_cons, horner_cons, horner_cons, List.length_cons, Nat.add_sub_cancel,
        Nat.sub_zero]
      ring
    | succ k =>
      have hk : k < l.length := Nat.lt_of_succ_lt_succ h
      have hexponent : (a :: l).length - 1 - (k + 1) = l.length - 1 - k := by
        rw [List.length_cons]
        omega
      rw [List.modify_succ_cons, horner_cons, horner_cons, ih hk, List.length_modify, hexponent]
      ring

end Space2.Base
