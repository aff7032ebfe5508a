import Mathlib

/-!
# Counting marked points

Some integers are marked. `between marks a b` counts the marked points from `a` up to `b`, and
`after marks a b` those past `a` and up to `b` itself. The two agree when both ends are marked.
-/
namespace Space2.Base.Marks

variable {marks : Set ℤ} {a b c : ℤ}

noncomputable def between (marks : Set ℤ) (a b : ℤ) : ℕ := (marks ∩ Set.Ico a b).ncard

noncomputable def after (marks : Set ℤ) (a b : ℤ) : ℕ := (marks ∩ Set.Ioc a b).ncard

theorem finite_Ico (marks : Set ℤ) (a b : ℤ) : (marks ∩ Set.Ico a b).Finite :=
  (Set.finite_Ico a b).inter_of_right marks

theorem finite_Ioc (marks : Set ℤ) (a b : ℤ) : (marks ∩ Set.Ioc a b).Finite :=
  (Set.finite_Ioc a b).inter_of_right marks

@[simp] theorem between_self : between marks a a = 0 := by simp [between]

@[simp] theorem after_self : after marks a a = 0 := by simp [after]

/-- Ranges that meet add up. -/
theorem between_add (hab : a ≤ b) (hbc : b ≤ c) :
    between marks a b + between marks b c = between marks a c := by
  have hdisjoint : Disjoint (marks ∩ Set.Ico a b) (marks ∩ Set.Ico b c) := by
    refine (Set.disjoint_left.mpr ?_).mono Set.inter_subset_right Set.inter_subset_right
    rintro day ⟨-, hbefore⟩ ⟨hafter, -⟩
    omega
  unfold between
  rw [← Set.ncard_union_eq hdisjoint (finite_Ico marks a b) (finite_Ico marks b c),
    ← Set.inter_union_distrib_left, Set.Ico_union_Ico_eq_Ico hab hbc]

theorem after_add (hab : a ≤ b) (hbc : b ≤ c) :
    after marks a b + after marks b c = after marks a c := by
  have hdisjoint : Disjoint (marks ∩ Set.Ioc a b) (marks ∩ Set.Ioc b c) := by
    refine (Set.disjoint_left.mpr ?_).mono Set.inter_subset_right Set.inter_subset_right
    rintro day ⟨-, hbefore⟩ ⟨hafter, -⟩
    omega
  unfold after
  rw [← Set.ncard_union_eq hdisjoint (finite_Ioc marks a b) (finite_Ioc marks b c),
    ← Set.inter_union_distrib_left, Set.Ioc_union_Ioc_eq_Ioc hab hbc]

section Steps

theorem between_one_of_mem (h : a ∈ marks) : between marks a (a + 1) = 1 := by
  have hone : marks ∩ Set.Ico a (a + 1) = {a} := by
    ext day
    constructor
    · rintro ⟨-, hlow, hhigh⟩
      exact le_antisymm (by omega) hlow
    · rintro rfl
      exact ⟨h, le_rfl, by omega⟩
  rw [between, hone, Set.ncard_singleton]

theorem between_one_of_notMem (h : a ∉ marks) : between marks a (a + 1) = 0 := by
  have hnone : marks ∩ Set.Ico a (a + 1) = ∅ := by
    ext day
    constructor
    · rintro ⟨hday, hlow, hhigh⟩
      obtain rfl : day = a := by omega
      exact absurd hday h
    · rintro ⟨⟩
  rw [between, hnone, Set.ncard_empty]

theorem after_eq_between (marks : Set ℤ) (a b : ℤ) :
    after marks a b = between marks (a + 1) (b + 1) := by
  unfold after between
  congr 2
  ext day
  simp only [Set.mem_Ioc, Set.mem_Ico]
  omega

/-- The last point counts where the first did not. -/
theorem between_eq_after (ha : a ∈ marks) (hb : b ∈ marks) (h : a ≤ b) :
    between marks a b = after marks a b := by
  have hleft : between marks a (a + 1) + between marks (a + 1) (b + 1) =
      between marks a (b + 1) := between_add (by omega) (by omega)
  have hright : between marks a b + between marks b (b + 1) = between marks a (b + 1) :=
    between_add h (by omega)
  rw [between_one_of_mem ha] at hleft
  rw [between_one_of_mem hb] at hright
  rw [after_eq_between]
  omega

end Steps

end Space2.Base.Marks
