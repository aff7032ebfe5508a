import Mathlib.Computability.StateTransition

/-!
# Draining a step function

A loop that steps until there is nothing to do, with fuel for the steps it takes. With
enough fuel it ends in the one state that the steps lead to and that has no step.
-/
namespace Space2.Base

open Relation StateTransition

variable {σ τ : Type*} {step : σ → Option σ} {s s' t : σ}

def drain (step : σ → Option σ) : ℕ → σ → σ
  | 0, s => s
  | fuel + 1, s =>
    match step s with
    | none => s
    | some s' => drain step fuel s'

theorem reaches_drain (fuel : ℕ) (s : σ) : Reaches step s (drain step fuel s) := by
  induction fuel generalizing s with
  | zero => exact ReflTransGen.refl
  | succ fuel ih =>
    rw [drain]
    cases hstep : step s with
    | none => exact ReflTransGen.refl
    | some s' => exact ReflTransGen.head hstep (ih s')

variable {I : σ → Prop} {work : σ → ℕ}

/-- With fuel for the work there is, nothing is left to do. -/
theorem step_drain (hkept : ∀ s s', I s → step s = some s' → I s')
    (hless : ∀ s s', I s → step s = some s' → work s' < work s) (fuel : ℕ) (hs : I s)
    (hfuel : work s ≤ fuel) : step (drain step fuel s) = none := by
  induction fuel generalizing s with
  | zero =>
    cases hstep : step s with
    | none => exact hstep
    | some s' =>
      have hdone := hless s s' hs hstep
      omega
  | succ fuel ih =>
    rw [drain]
    cases hstep : step s with
    | none => exact hstep
    | some s' =>
      have hdone := hless s s' hs hstep
      have hfuel' : work s' ≤ fuel := by omega
      exact ih (hkept s s' hs hstep) hfuel'

theorem reaches_kept (hkept : ∀ s s', I s → step s = some s' → I s') (hreaches : Reaches step s t)
    (hs : I s) : I t := by
  induction hreaches with
  | refl => exact hs
  | tail _ hstep ih => exact hkept _ _ ih hstep

/-- There is one state without a step to end in. -/
theorem eq_of_reaches (hs : Reaches step s s') (hs' : step s' = none) (ht : Reaches step s t)
    (ht' : step t = none) : s' = t :=
  Part.mem_unique (mem_eval.mpr ⟨hs, hs'⟩) (mem_eval.mpr ⟨ht, ht'⟩)

theorem reaches_map {step' : τ → Option τ} (f : σ → τ) (hkept : ∀ s s', I s → step s = some s' → I s')
    (hstep : ∀ s s', I s → step s = some s' → step' (f s) = some (f s')) (hreaches : Reaches step s t)
    (hs : I s) : Reaches step' (f s) (f t) := by
  induction hreaches with
  | refl => exact ReflTransGen.refl
  | tail hfirst hlast ih => exact ReflTransGen.tail ih (hstep _ _ (reaches_kept hkept hfirst hs) hlast)

end Space2.Base
