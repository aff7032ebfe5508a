import Mathlib.Data.List.Lattice
import Mathlib.Data.List.Nodup
import Mathlib.Data.List.Perm.Subperm
import Mathlib.Order.Bounds.Defs

/-!
# Saturation

A list of keys is expanded round by round until a round finds nothing new. A round reads the keys
known at its start, so a key found in one round is expanded in the next. `none` says that the
rounds ran out. Where expansion stays inside a finite list, one round more than that list is long
is enough, and the result is the least closed set that holds the start.
-/

namespace Space2.Base

variable {κ ε : Type} [DecidableEq κ]

def saturate (expand : List κ → Except ε (List κ)) : Nat → List κ → Option (Except ε (List κ))
  | 0, _ => none
  | rounds + 1, seen =>
    match expand seen with
    | .error e => some (.error e)
    | .ok found =>
      if found.all (· ∈ seen) then some (.ok seen) else saturate expand rounds (found ∪ seen)

/-- Whatever is found from keys in the set is in the set. -/
def Closed (expand : List κ → Except ε (List κ)) (T : Set κ) : Prop :=
  ∀ seen found, (∀ k ∈ seen, k ∈ T) → expand seen = .ok found → ∀ k ∈ found, k ∈ T

variable {expand : List κ → Except ε (List κ)} {carrier seen found result : List κ}

theorem length_lt_union (hnodup : seen.Nodup) (hnew : ¬ ∀ k ∈ found, k ∈ seen) :
    seen.length < (found ∪ seen).length := by
  simp only [not_forall] at hnew
  obtain ⟨k, hk, hfresh⟩ := hnew
  have hsub : k :: seen ⊆ found ∪ seen := by
    intro other hother
    rcases List.mem_cons.mp hother with rfl | hold
    · exact List.mem_union_left hk _
    · exact List.mem_union_right _ hold
  exact (List.subperm_of_subset (List.nodup_cons.mpr ⟨hfresh, hnodup⟩) hsub).length_le

/-- With rounds to spare for every key of the carrier that is not seen yet, saturation ends. -/
theorem saturate_ends
    (hexpand : ∀ seen ⊆ carrier, ∃ found, expand seen = .ok found ∧ found ⊆ carrier)
    (hseen : seen ⊆ carrier) (hnodup : seen.Nodup) {rounds : Nat}
    (hrounds : carrier.length < seen.length + rounds) :
    ∃ result, saturate expand rounds seen = some (.ok result) ∧ result.Nodup ∧
      result ⊆ carrier := by
  induction rounds generalizing seen with
  | zero =>
    have hle := (List.subperm_of_subset hnodup hseen).length_le
    omega
  | succ rounds ih =>
    obtain ⟨found, hfound, hcarrier⟩ := hexpand seen hseen
    simp only [saturate, hfound]
    by_cases hall : ∀ k ∈ found, k ∈ seen
    · have htrue : found.all (· ∈ seen) = true := by simpa using hall
      rw [htrue, if_pos rfl]
      exact ⟨seen, rfl, hnodup, hseen⟩
    · have hlength := length_lt_union hnodup hall
      have hnext : found ∪ seen ⊆ carrier := by
        intro k hk
        rcases List.mem_union_iff.mp hk with hnew | hold
        · exact hcarrier hnew
        · exact hseen hold
      have hfalse : found.all (· ∈ seen) = false := by
        rw [List.all_eq_false]
        simpa using hall
      rw [hfalse, if_neg Bool.false_ne_true]
      exact ih hnext (List.Nodup.union _ hnodup) (by omega)

/-- A set that holds the start and is closed holds the result. -/
theorem saturate_sound {T : Set κ} {rounds : Nat} (hT : Closed expand T)
    (hseen : ∀ k ∈ seen, k ∈ T) (h : saturate expand rounds seen = some (.ok result)) :
    ∀ k ∈ result, k ∈ T := by
  induction rounds generalizing seen with
  | zero => simp [saturate] at h
  | succ rounds ih =>
    rw [saturate] at h
    cases hfound : expand seen with
    | error e => simp [hfound] at h
    | ok found =>
      simp only [hfound] at h
      split_ifs at h
      · simp only [Option.some.injEq, Except.ok.injEq] at h
        exact h ▸ hseen
      · refine ih (fun k hk => ?_) h
        rcases List.mem_union_iff.mp hk with hnew | hold
        · exact hT seen found hseen hfound k hnew
        · exact hseen k hold

/-- The result holds the start, and expanding it finds nothing new. -/
theorem saturate_closed {rounds : Nat} (h : saturate expand rounds seen = some (.ok result)) :
    seen ⊆ result ∧ ∃ found, expand result = .ok found ∧ found ⊆ result := by
  induction rounds generalizing seen with
  | zero => simp [saturate] at h
  | succ rounds ih =>
    rw [saturate] at h
    cases hfound : expand seen with
    | error e => simp [hfound] at h
    | ok found =>
      simp only [hfound] at h
      split_ifs at h with hall
      · simp only [Option.some.injEq, Except.ok.injEq] at h
        subst h
        have hold : ∀ k ∈ found, k ∈ seen := by simpa using hall
        exact ⟨List.Subset.refl _, found, hfound, hold⟩
      · obtain ⟨hsub, hclosed⟩ := ih h
        exact ⟨fun k hk => hsub (List.mem_union_right _ hk), hclosed⟩

/-- When expanding more keys finds more, the result is the least closed set over the start. -/
theorem saturate_isLeast {rounds : Nat}
    (hmono : ∀ seen seen' found, (∀ k ∈ seen, k ∈ seen') → expand seen' = .ok found →
      ∀ found', expand seen = .ok found' → found' ⊆ found)
    (h : saturate expand rounds seen = some (.ok result)) :
    IsLeast {T : Set κ | (∀ k ∈ seen, k ∈ T) ∧ Closed expand T} {k | k ∈ result} := by
  obtain ⟨hstart, found, hfound, hsub⟩ := saturate_closed h
  refine ⟨⟨fun k hk => hstart hk, ?_⟩, fun T hT k hk => saturate_sound hT.2 hT.1 h k hk⟩
  intro some' found' hsome hexpand k hk
  exact hsub (hmono some' result found hsome hfound found' hexpand hk)

end Space2.Base
