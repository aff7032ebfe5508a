import Mathlib

/-!
# Least costs along a line

The places of a line are visited in order, and every step from a place is offered to
the place it leads to, which keeps the cheapest and the last step taken. Below a cap
the table then holds the least cost of a path.
-/
namespace Space2.Base

variable {σ : Type*}

/-- Steps between the places of a line. -/
structure Line (σ : Type*) where
  source : σ → Nat
  target : σ → Nat
  cost : σ → Nat

structure Table (σ : Type*) where
  best : Nat → Nat
  last : Nat → Option σ

namespace Line

def offer (L : Line σ) (base : Nat) (t : Table σ) (s : σ) : Table σ :=
  if base + L.cost s < t.best (L.target s) then
    ⟨Function.update t.best (L.target s) (base + L.cost s), Function.update t.last (L.target s) (some s)⟩
  else t

def IsPath (L : Line σ) (P : σ → Prop) : Nat → List σ → Nat → Prop
  | start, [], stop => start = stop
  | start, s :: path, stop => P s ∧ L.source s = start ∧ L.IsPath P (L.target s) path stop

def pathCost (L : Line σ) (path : List σ) : Nat := (path.map L.cost).sum

variable {L : Line σ} {P : σ → Prop} {origin cap k : Nat} {t : Table σ}

theorem IsPath.concat {start stop : Nat} {path : List σ} {s : σ} (h : L.IsPath P start path stop)
    (hs : P s) (hsource : L.source s = stop) : L.IsPath P start (path ++ [s]) (L.target s) := by
  induction path generalizing start with
  | nil =>
    obtain rfl : start = stop := h
    exact ⟨hs, hsource, rfl⟩
  | cons first path ih => exact ⟨h.1, h.2.1, ih h.2.2⟩

/-- What holds when the steps from the places before `k` have been offered. -/
structure Relaxed (L : Line σ) (P : σ → Prop) (origin cap k : Nat) (t : Table σ) : Prop where
  le_cap : ∀ i, t.best i ≤ cap
  best_origin : t.best origin = 0
  back : ∀ i, i ≠ origin → t.best i < cap → ∃ s, t.last i = some s ∧ P s ∧ L.target s = i ∧
    L.source s < i ∧ L.source s < k ∧ origin ≤ L.source s ∧ t.best i = t.best (L.source s) + L.cost s

theorem offer_best_le (L : Line σ) (base : Nat) (t : Table σ) (s : σ) (i : Nat) :
    (L.offer base t s).best i ≤ t.best i := by
  unfold offer
  split_ifs with hless
  · change Function.update t.best (L.target s) (base + L.cost s) i ≤ t.best i
    by_cases hi : i = L.target s
    · subst hi
      rw [Function.update_self]
      exact hless.le
    · rw [Function.update_of_ne hi]
  · exact le_rfl

theorem offer_best_target (L : Line σ) (base : Nat) (t : Table σ) (s : σ) :
    (L.offer base t s).best (L.target s) ≤ base + L.cost s := by
  unfold offer
  split_ifs with hless
  · exact (Function.update_self (L.target s) (base + L.cost s) t.best).le
  · exact not_lt.mp hless

theorem offer_best_of_ne (L : Line σ) (base : Nat) (t : Table σ) {s : σ} {i : Nat} (h : i ≠ L.target s) :
    (L.offer base t s).best i = t.best i := by
  unfold offer
  split_ifs
  · exact Function.update_of_ne h (base + L.cost s) t.best
  · rfl

/-- One step offered from the place `k`. -/
theorem Relaxed.offer (h : L.Relaxed P origin cap (k + 1) t) {s : σ} (hs : P s) (hsource : L.source s = k)
    (htarget : k < L.target s) (horigin : origin ≤ k) :
    L.Relaxed P origin cap (k + 1) (L.offer (t.best k) t s) := by
  refine ⟨fun i => (offer_best_le L _ t s i).trans (h.le_cap i), ?_, fun i hi hcap => ?_⟩
  · rw [offer_best_of_ne L _ t (by omega), h.best_origin]
  · unfold Line.offer at hcap ⊢
    by_cases hless : t.best k + L.cost s < t.best (L.target s)
    · rw [if_pos hless] at hcap ⊢
      dsimp only at hcap ⊢
      by_cases hplace : i = L.target s
      · subst hplace
        refine ⟨s, Function.update_self _ _ _, hs, rfl, by omega, by omega, by omega, ?_⟩
        rw [Function.update_self, Function.update_of_ne (by omega), hsource]
      · rw [Function.update_of_ne hplace] at hcap
        obtain ⟨step, hlast, hstep, hto, hbefore, hk, hfrom, hbest⟩ := h.back i hi hcap
        refine ⟨step, ?_, hstep, hto, hbefore, hk, hfrom, ?_⟩
        · rw [Function.update_of_ne hplace, hlast]
        · rw [Function.update_of_ne hplace, Function.update_of_ne (by omega), hbest]
    · rw [if_neg hless] at hcap ⊢
      exact h.back i hi hcap

/-- All steps from the place `k`, one after the other. -/
theorem Relaxed.offers (h : L.Relaxed P origin cap (k + 1) t) (steps : List σ) (horigin : origin ≤ k)
    (hsteps : ∀ s ∈ steps, P s ∧ L.source s = k ∧ k < L.target s) :
    L.Relaxed P origin cap (k + 1) (steps.foldl (L.offer (t.best k)) t) ∧
      (∀ i ≤ k, (steps.foldl (L.offer (t.best k)) t).best i = t.best i) ∧
      (∀ i, (steps.foldl (L.offer (t.best k)) t).best i ≤ t.best i) ∧
      ∀ s ∈ steps, (steps.foldl (L.offer (t.best k)) t).best (L.target s) ≤ t.best k + L.cost s := by
  induction steps generalizing t with
  | nil => exact ⟨h, fun _ _ => rfl, fun _ => le_rfl, fun s hs => absurd hs List.not_mem_nil⟩
  | cons first steps ih =>
    obtain ⟨⟨hfirst, hsource, htarget⟩, hlater⟩ := List.forall_mem_cons.mp hsteps
    have hkept : ∀ i ≤ k, (L.offer (t.best k) t first).best i = t.best i := fun i hi =>
      offer_best_of_ne L _ t (by omega)
    obtain ⟨hrelaxed, hbefore, hle, hall⟩ := ih (h.offer hfirst hsource htarget horigin) hlater
    rw [hkept k le_rfl] at hrelaxed hbefore hle hall
    rw [List.foldl_cons]
    refine ⟨hrelaxed, fun i hi => (hbefore i hi).trans (hkept i hi),
      fun i => (hle i).trans (offer_best_le L _ t first i), List.forall_mem_cons.mpr ⟨?_, hall⟩⟩
    exact (hle _).trans (offer_best_target L _ t first)

/-- No step from a place before `k` makes anything cheaper. -/
def Settled (L : Line σ) (P : σ → Prop) (k : Nat) (t : Table σ) : Prop :=
  ∀ s, P s → L.source s < k → t.best (L.target s) ≤ t.best (L.source s) + L.cost s

/-- The place `k` is done when its steps have been offered, or when it is out of reach. -/
theorem relaxed_next {steps : List σ} (h : L.Relaxed P origin cap k t) (hsettled : L.Settled P k t)
    (horigin : origin ≤ k) (hforward : ∀ s, P s → L.source s ≤ L.target s)
    (hsteps : ∀ s, s ∈ steps ↔ P s ∧ L.source s = k ∧ k < L.target s) :
    L.Relaxed P origin cap (k + 1) (if t.best k < cap then steps.foldl (L.offer (t.best k)) t else t) ∧
      L.Settled P (k + 1) (if t.best k < cap then steps.foldl (L.offer (t.best k)) t else t) := by
  have hwider : L.Relaxed P origin cap (k + 1) t := by
    refine ⟨h.le_cap, h.best_origin, fun i hi hcap => ?_⟩
    obtain ⟨step, hlast, hstep, hto, hbefore, hk, hrest⟩ := h.back i hi hcap
    exact ⟨step, hlast, hstep, hto, hbefore, hk.trans (Nat.lt_succ_self k), hrest⟩
  by_cases hreached : t.best k < cap
  · rw [if_pos hreached]
    obtain ⟨hrelaxed, hkept, hle, hall⟩ := hwider.offers steps horigin fun s hs => (hsteps s).mp hs
    refine ⟨hrelaxed, fun s hs hsource => ?_⟩
    rw [hkept _ (Nat.lt_succ_iff.mp hsource)]
    rcases Nat.lt_succ_iff_lt_or_eq.mp hsource with hearlier | hhere
    · exact (hle _).trans (hsettled s hs hearlier)
    · rcases (hforward s hs).lt_or_eq with hfar | hstays
      · rw [hhere] at hfar ⊢
        exact hall s ((hsteps s).mpr ⟨hs, hhere, hfar⟩)
      · rw [← hstays, hkept _ (Nat.lt_succ_iff.mp hsource)]
        exact Nat.le_add_right _ _
  · rw [if_neg hreached]
    refine ⟨hwider, fun s hs hsource => ?_⟩
    rcases Nat.lt_succ_iff_lt_or_eq.mp hsource with hearlier | hhere
    · exact hsettled s hs hearlier
    · rw [hhere]
      exact ((h.le_cap _).trans (not_lt.mp hreached)).trans (Nat.le_add_right _ _)

/-- When every step starts before `k`, a path is no cheaper than the table says. -/
theorem Settled.best_le {start stop : Nat} {path : List σ} (h : L.Settled P k t)
    (hbefore : ∀ s, P s → L.source s < k) (hpath : L.IsPath P start path stop) :
    t.best stop ≤ t.best start + L.pathCost path := by
  induction path generalizing start with
  | nil =>
    obtain rfl : start = stop := hpath
    exact Nat.le_add_right _ _
  | cons first path ih =>
    obtain ⟨hfirst, hsource, hrest⟩ := hpath
    have hstep := h first hfirst (hbefore first hfirst)
    have htail := ih hrest
    rw [hsource] at hstep
    rw [pathCost, List.map_cons, List.sum_cons]
    change _ ≤ _ + (L.cost first + L.pathCost path)
    omega

end Line

end Space2.Base
