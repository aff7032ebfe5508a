import Mathlib.Data.List.Basic
import Mathlib.Tactic.SplitIfs

/-!
# Chains of aliases

Some keys are aliases, and an alias may name another key. Following a key goes from name to name
until it meets a key that names nothing; it fails on a cycle and when it runs out of hops. A chain
that ends has no cycle, so the keys met on the way never matter.
-/

namespace Space2.Base

inductive Failure (κ : Type)
  | cycle (key : κ)
  | exhausted (key : κ)
  deriving DecidableEq, Repr

structure Aliases (κ : Type) where
  isAlias : κ → Bool
  next : κ → Option κ
  only : ∀ k, isAlias k = false → next k = none

/-- So many hops lead from one key to the other. -/
inductive Hops {κ : Type} (next : κ → Option κ) : Nat → κ → κ → Prop
  | zero (k : κ) : Hops next 0 k k
  | succ {n : Nat} {k j t : κ} : next k = some j → Hops next n j t → Hops next (n + 1) k t

variable {κ : Type}

namespace Hops
variable {next next' : κ → Option κ} {n m : Nat} {k j t : κ}

/-- A chain that ends passes every key it meets on its way to the end. -/
theorem split (h : Hops next m k j) (hend : Hops next n k t) (hlast : next t = none) :
    ∃ rest, n = m + rest ∧ Hops next rest j t := by
  induction h generalizing n with
  | zero k => exact ⟨n, (Nat.zero_add n).symm, hend⟩
  | succ hnext _ ih =>
    cases hend with
    | zero => simp [hlast] at hnext
    | succ hnext' hrest =>
      obtain rfl := Option.some.inj (hnext.symm.trans hnext')
      obtain ⟨rest, rfl, hfrom⟩ := ih hrest
      exact ⟨rest, by omega, hfrom⟩

/-- No cycle leads to an end. -/
theorem no_cycle (hcycle : Hops next (m + 1) k k) (hend : Hops next n k t)
    (hlast : next t = none) : False := by
  induction n using Nat.strongRecOn with
  | ind n ih =>
    obtain ⟨rest, hlength, hfrom⟩ := hcycle.split hend hlast
    exact ih rest (by omega) hfrom

theorem snoc (h : Hops next n k j) (hnext : next j = some t) : Hops next (n + 1) k t := by
  induction h with
  | zero k => exact .succ hnext (.zero t)
  | succ hfirst _ ih => exact .succ hfirst (ih hnext)

/-- A renaming that commutes with the aliases of a closed domain carries chains over. -/
theorem map {D : κ → Prop} {σ : κ → κ} (hclosed : ∀ k j, D k → next k = some j → D j)
    (hcommutes : ∀ k, D k → next' (σ k) = (next k).map σ) (h : Hops next n k t) (hk : D k) :
    Hops next' n (σ k) (σ t) ∧ D t := by
  induction h with
  | zero k => exact ⟨.zero _, hk⟩
  | succ hnext _ ih =>
    obtain ⟨hrest, ht⟩ := ih (hclosed _ _ hk hnext)
    have hstep := hcommutes _ hk
    rw [hnext, Option.map_some] at hstep
    exact ⟨.succ hstep hrest, ht⟩

end Hops

namespace Aliases
variable [DecidableEq κ] (A : Aliases κ)

/-- `visited` holds the keys met so far, and so many hops may still be made. -/
def followFrom : Nat → List κ → κ → Except (Failure κ) κ
  | hops, visited, k =>
    if A.isAlias k = true then
      if k ∈ visited then .error (.cycle k)
      else
        match A.next k with
        | none => .ok k
        | some j =>
          match hops with
          | 0 => .error (.exhausted k)
          | hops + 1 => followFrom hops (k :: visited) j
    else .ok k

def follow (hops : Nat) (k : κ) : Except (Failure κ) κ := A.followFrom hops [] k

theorem followFrom_zero (visited : List κ) (k : κ) :
    A.followFrom 0 visited k =
      if A.isAlias k = true then
        if k ∈ visited then .error (.cycle k)
        else match A.next k with
          | none => .ok k
          | some _ => .error (.exhausted k)
      else .ok k := by
  rw [followFrom]

theorem followFrom_succ (hops : Nat) (visited : List κ) (k : κ) :
    A.followFrom (hops + 1) visited k =
      if A.isAlias k = true then
        if k ∈ visited then .error (.cycle k)
        else match A.next k with
          | none => .ok k
          | some j => A.followFrom hops (k :: visited) j
      else .ok k := by
  rw [followFrom]

variable {A} {B : Aliases κ} {hops n : Nat} {visited : List κ} {k t : κ}

theorem followFrom_other (h : A.isAlias k = false) : A.followFrom hops visited k = .ok k := by
  have hnot : ¬ A.isAlias k = true := by simp [h]
  cases hops with
  | zero => rw [followFrom_zero, if_neg hnot]
  | succ hops => rw [followFrom_succ, if_neg hnot]

theorem followFrom_last (h : A.isAlias k = true) (hnone : A.next k = none) :
    A.followFrom hops visited k = .ok t ↔ k ∉ visited ∧ k = t := by
  cases hops with
  | zero => by_cases hnew : k ∈ visited <;> simp [followFrom_zero, h, hnone, hnew]
  | succ hops => by_cases hnew : k ∈ visited <;> simp [followFrom_succ, h, hnone, hnew]

theorem followFrom_hop {j : κ} (h : A.isAlias k = true) (hnext : A.next k = some j) :
    A.followFrom hops visited k = .ok t ↔
      k ∉ visited ∧ ∃ less, hops = less + 1 ∧ A.followFrom less (k :: visited) j = .ok t := by
  cases hops with
  | zero => by_cases hnew : k ∈ visited <;> simp [followFrom_zero, h, hnext, hnew]
  | succ hops => by_cases hnew : k ∈ visited <;> simp [followFrom_succ, h, hnext, hnew]

theorem hops_of_followFrom (h : A.followFrom hops visited k = .ok t) :
    ∃ n ≤ hops, Hops A.next n k t ∧ A.next t = none := by
  have hhere : A.next k = none → k = t → ∃ n ≤ hops, Hops A.next n k t ∧ A.next t = none := by
    rintro hlast rfl
    exact ⟨0, Nat.zero_le _, .zero k, hlast⟩
  induction hops generalizing visited k with
  | zero =>
    rw [followFrom_zero] at h
    split_ifs at h with halias
    · split at h
      · exact hhere ‹_› (Except.ok.inj h)
      · cases h
    · exact hhere (A.only k (by simpa using halias)) (Except.ok.inj h)
  | succ hops ih =>
    rw [followFrom_succ] at h
    split_ifs at h with halias
    · split at h
      · exact hhere ‹_› (Except.ok.inj h)
      next j hnext =>
        obtain ⟨n, hle, hrest, hlast⟩ := ih h fun hlast hsame => by
          subst hsame
          exact ⟨0, Nat.zero_le _, .zero j, hlast⟩
        exact ⟨n + 1, by omega, .succ hnext hrest, hlast⟩
    · exact hhere (A.only k (by simpa using halias)) (Except.ok.inj h)

/-- The keys met before lead to the current one, so a chain that ends does not meet them again. -/
theorem followFrom_of_hops (h : Hops A.next n k t) (hlast : A.next t = none) (hle : n ≤ hops)
    (hvisited : ∀ v ∈ visited, ∃ m, Hops A.next (m + 1) v k) :
    A.followFrom hops visited k = .ok t := by
  induction n generalizing hops visited k with
  | zero =>
    cases h with
    | zero =>
      have hnew : t ∉ visited := by
        intro hmem
        obtain ⟨m, hcycle⟩ := hvisited t hmem
        exact hcycle.no_cycle (.zero t) hlast
      by_cases halias : A.isAlias t = true
      · exact (followFrom_last halias hlast).mpr ⟨hnew, rfl⟩
      · exact followFrom_other (by simpa using halias)
  | succ n ih =>
    cases h with
    | succ hnext hrest =>
      rename_i j
      have hnew : k ∉ visited := by
        intro hmem
        obtain ⟨m, hcycle⟩ := hvisited k hmem
        exact hcycle.no_cycle (.succ hnext hrest) hlast
      have halias : A.isAlias k = true := by
        by_contra hnot
        rw [A.only k (by simpa using hnot)] at hnext
        cases hnext
      obtain ⟨hops, rfl⟩ : ∃ less, hops = less + 1 := ⟨hops - 1, by omega⟩
      refine (followFrom_hop halias hnext).mpr ⟨hnew, hops, rfl, ih hrest (by omega) ?_⟩
      intro v hv
      rcases List.mem_cons.mp hv with rfl | hold
      · exact ⟨0, .succ hnext (.zero j)⟩
      · obtain ⟨m, hbefore⟩ := hvisited v hold
        exact ⟨m + 1, hbefore.snoc hnext⟩

theorem follow_eq_ok :
    A.follow hops k = .ok t ↔ ∃ n ≤ hops, Hops A.next n k t ∧ A.next t = none := by
  constructor
  · exact hops_of_followFrom
  · rintro ⟨n, hle, hchain, hlast⟩
    exact followFrom_of_hops hchain hlast hle (by simp)

/-- Following commutes with a renaming that commutes with the aliases. -/
theorem follow_map {D : κ → Prop} {σ : κ → κ} (hclosed : ∀ k j, D k → A.next k = some j → D j)
    (hcommutes : ∀ k, D k → B.next (σ k) = (A.next k).map σ) (hk : D k)
    (h : A.follow hops k = .ok t) : B.follow hops (σ k) = .ok (σ t) := by
  obtain ⟨n, hle, hchain, hlast⟩ := follow_eq_ok.mp h
  obtain ⟨hchain', ht⟩ := hchain.map hclosed hcommutes hk
  have hlast' : B.next (σ t) = none := by rw [hcommutes t ht, hlast, Option.map_none]
  exact follow_eq_ok.mpr ⟨n, hle, hchain', hlast'⟩

/-- Following does not leave a closed domain. -/
theorem follow_domain {D : κ → Prop} (hclosed : ∀ k j, D k → A.next k = some j → D j) (hk : D k)
    (h : A.follow hops k = .ok t) : D t := by
  obtain ⟨n, -, hchain, -⟩ := follow_eq_ok.mp h
  have hid : ∀ k, D k → A.next (id k) = (A.next k).map id := by simp
  exact (hchain.map hclosed hid hk).2

/-- An alias that names a key where chains end. -/
theorem follow_wrapped {j : κ} (hnext : A.next j = some k) (hlast : A.next k = none)
    (hhops : 0 < hops) : A.follow hops j = .ok k :=
  follow_eq_ok.mpr ⟨1, hhops, .succ hnext (.zero k), hlast⟩

theorem follow_last (hlast : A.next k = none) : A.follow hops k = .ok k :=
  follow_eq_ok.mpr ⟨0, Nat.zero_le _, .zero k, hlast⟩

/-- Names that are exchanged at the end of a chain only, or wherever an alias names them. -/
theorem followFrom_exchange {σ : κ → κ} (halias : ∀ k, B.isAlias k = A.isAlias k)
    (hnext : ∀ k, B.next k = (A.next k).map σ) (hfix : ∀ k, A.isAlias k = true → σ k = k)
    (hend : ∀ k, A.isAlias k = false → A.isAlias (σ k) = false) :
    B.followFrom hops visited (σ k) = (A.followFrom hops visited k).map σ := by
  induction hops generalizing visited k with
  | zero =>
    by_cases hk : A.isAlias k = true
    · rw [hfix k hk, followFrom_zero, followFrom_zero, halias, if_pos hk, if_pos hk, hnext]
      split_ifs with hvisited
      · rfl
      · cases A.next k with
        | none => simp [Except.map, hfix k hk]
        | some j => rfl
    · rw [Bool.not_eq_true] at hk
      rw [followFrom_other hk, followFrom_other ((halias _).trans (hend k hk))]
      rfl
  | succ hops ih =>
    by_cases hk : A.isAlias k = true
    · rw [hfix k hk, followFrom_succ, followFrom_succ, halias, if_pos hk, if_pos hk, hnext]
      split_ifs with hvisited
      · rfl
      · cases A.next k with
        | none => simp [Except.map, hfix k hk]
        | some j => exact ih
    · rw [Bool.not_eq_true] at hk
      rw [followFrom_other hk, followFrom_other ((halias _).trans (hend k hk))]
      rfl

end Aliases

end Space2.Base
