import Mathlib

/-!
# The first free number

A loop that counts up while a number is in use stops, if only finitely many names
are in use and different numbers have different names.
-/
namespace Space2.Base

/-- The loop with a bound on its passes. -/
def firstFree (used : Nat → Bool) : Nat → Nat → Nat
  | 0, n => n
  | fuel + 1, n => if used n = true then firstFree used fuel (n + 1) else n

variable {used : Nat → Bool} {α : Type*} {name : Nat → α} {names : List α}

theorem firstFree_free_or (fuel n : Nat) :
    used (firstFree used fuel n) = false ∨ ∀ k < fuel, used (n + k) = true := by
  induction fuel generalizing n with
  | zero => exact .inr fun k hk => absurd hk (Nat.not_lt_zero k)
  | succ fuel ih =>
    unfold firstFree
    split_ifs with hused
    · rcases ih (n + 1) with hfree | hall
      · exact .inl hfree
      · right
        intro k hk
        cases k with
        | zero => exact hused
        | succ k =>
          have hnext := hall k (by omega)
          rwa [Nat.add_assoc, Nat.add_comm 1 k] at hnext
    · exact .inl (Bool.eq_false_of_not_eq_true hused)

/-- Of one more number than there are names one is free. -/
theorem firstFree_free (used : Nat → Bool) (names : List α) (hname : Function.Injective name)
    (hused : ∀ n, used n = true → name n ∈ names) (n : Nat) :
    used (firstFree used (names.length + 1) n) = false := by
  rcases @firstFree_free_or used (names.length + 1) n with hfree | hall
  · exact hfree
  · exfalso
    have hnodup : ((List.range (names.length + 1)).map fun k => name (n + k)).Nodup := by
      apply List.Nodup.map _ List.nodup_range
      intro j k hjk
      have hsame := hname hjk
      omega
    have hsub : ((List.range (names.length + 1)).map fun k => name (n + k)) ⊆ names := by
      intro a ha
      obtain ⟨k, hk, rfl⟩ := List.mem_map.mp ha
      exact hused _ (hall k (List.mem_range.mp hk))
    have hlength := (List.subperm_of_subset hnodup hsub).length_le
    simp at hlength

end Space2.Base
