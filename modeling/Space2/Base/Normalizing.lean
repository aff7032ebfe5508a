import Mathlib.Data.List.Basic

/-!
# Rewriting to a normal form

A partial rewriting of members normalizes when whatever it yields it would leave alone. A list that is
rewritten member by member is then settled at once: the members that were settled stay where they
are, and rewriting the list again changes nothing.
-/
namespace Space2.Base

variable {α β : Type}

structure Normalizes (f : α → Option α) (settled : α → Bool) : Prop where
  reaches : ∀ a b, f a = some b → settled b = true
  keeps : ∀ a, settled a = true → f a = some a

namespace Normalizes
variable {f : α → Option α} {settled : α → Bool} (h : Normalizes f settled)
include h

theorem all (l : List α) : ∀ b ∈ l.filterMap f, settled b = true := by
  intro b hb
  obtain ⟨a, -, hab⟩ := List.mem_filterMap.mp hb
  exact h.reaches a b hab

theorem same {l : List α} (hl : ∀ a ∈ l, settled a = true) : l.filterMap f = l := by
  induction l with
  | nil => rfl
  | cons a l ih =>
    obtain ⟨ha, hrest⟩ := List.forall_mem_cons.mp hl
    rw [List.filterMap_cons, h.keeps a ha, ih hrest]

theorem again (l : List α) : (l.filterMap f).filterMap f = l.filterMap f := h.same (h.all l)

theorem kept (l : List α) : (l.filter settled).Sublist (l.filterMap f) := by
  induction l with
  | nil => exact List.Sublist.refl _
  | cons a l ih =>
    by_cases ha : settled a = true
    · rw [List.filter_cons_of_pos ha, List.filterMap_cons, h.keeps a ha]
      exact ih.cons_cons a
    · rw [List.filter_cons_of_neg ha, List.filterMap_cons]
      cases f a with
      | none => exact ih
      | some b => exact ih.cons b

end Normalizes

/-- What a rewriting leaves alone in each member stays in the order of the members. -/
theorem filterMap_carries {f : α → Option α} {g : α → β} (h : ∀ a b, f a = some b → g b = g a)
    (l : List α) : ((l.filterMap f).map g).Sublist (l.map g) := by
  induction l with
  | nil => exact List.Sublist.refl _
  | cons a l ih =>
    rw [List.filterMap_cons, List.map_cons]
    cases ha : f a with
    | none => exact ih.cons (g a)
    | some b =>
      rw [List.map_cons, h a b ha]
      exact ih.cons_cons (g a)

end Space2.Base
