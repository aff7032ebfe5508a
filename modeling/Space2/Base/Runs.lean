import Mathlib.Data.List.Basic

/-!
# Runs of a step system

A system answers each action with its next state, and a run applies one action
after another. A property of every action taken is carried along the run by an
invariant, and a relation kept by paired actions is kept by paired runs.
-/
namespace Space2.Base

variable {σ τ α : Type*} {step : σ → α → σ} {P Q : σ → α → Prop}

/-- Every action of the run meets `P` in the state it finds. -/
def Along (step : σ → α → σ) (P : σ → α → Prop) : σ → List α → Prop
  | _, [] => True
  | s, a :: actions => P s a ∧ Along step P (step s a) actions

instance Along.decidable [∀ s a, Decidable (P s a)] :
    ∀ (s : σ) (actions : List α), Decidable (Along step P s actions)
  | _, [] => inferInstanceAs (Decidable True)
  | s, a :: actions =>
    have := Along.decidable (step s a) actions
    inferInstanceAs (Decidable (P s a ∧ Along step P (step s a) actions))

theorem Along.append {s : σ} {first rest : List α} :
    Along step P s (first ++ rest) ↔
      Along step P s first ∧ Along step P (first.foldl step s) rest := by
  induction first generalizing s with
  | nil => simp only [List.nil_append, Along, List.foldl_nil, true_and]
  | cons a first ih =>
    simp only [List.cons_append, Along, List.foldl_cons, ih, and_assoc]

variable {I : σ → Prop}

/-- What every allowed action keeps holds at the end of every run of allowed actions. -/
theorem Along.invariant (kept : ∀ s a, I s → P s a → I (step s a)) {s : σ} {actions : List α}
    (hs : I s) (h : Along step P s actions) : I (actions.foldl step s) := by
  induction actions generalizing s with
  | nil => exact hs
  | cons a actions ih => exact ih (kept s a hs h.1) h.2

theorem Along.imp (kept : ∀ s a, I s → P s a → I (step s a))
    (hstep : ∀ s a, I s → P s a → Q s a) {s : σ} {actions : List α}
    (hs : I s) (h : Along step P s actions) : Along step Q s actions := by
  induction actions generalizing s with
  | nil => trivial
  | cons a actions ih => exact ⟨hstep s a hs h.1, ih (kept s a hs h.1) h.2⟩

theorem along_of_forall (h : ∀ s a, P s a) (s : σ) (actions : List α) :
    Along step P s actions := by
  induction actions generalizing s with
  | nil => trivial
  | cons a actions ih => exact ⟨h s a, ih (step s a)⟩

theorem along_of_mem {allowed : α → Prop} {actions : List α} (h : ∀ a ∈ actions, allowed a)
    (s : σ) : Along step (fun _ a => allowed a) s actions := by
  induction actions generalizing s with
  | nil => trivial
  | cons a actions ih =>
    exact ⟨h a List.mem_cons_self, ih (fun b hb => h b (List.mem_cons_of_mem a hb)) (step s a)⟩

theorem invariant_foldl (kept : ∀ s a, I s → I (step s a)) {s : σ} (hs : I s)
    (actions : List α) : I (actions.foldl step s) :=
  Along.invariant (fun s a hI (_ : True) => kept s a hI) hs
    (along_of_forall (fun _ _ => trivial) s actions)

end Space2.Base
