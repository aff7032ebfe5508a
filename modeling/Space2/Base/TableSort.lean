import Mathlib.Data.List.Sort
import Mathlib.Order.Basic

/-!
# Sorting a table

A table is sorted by a test that says which of two members comes first. When the test compares keys
of a linear order, the sorted table is ascending in the keys.
-/
namespace Space2.Base

variable {α κ : Type} [LinearOrder κ]

def tableSort (precedes : α → α → Bool) (l : List α) : List α :=
  l.insertionSort fun a b => precedes b a = false

theorem tableSort_perm (precedes : α → α → Bool) (l : List α) :
    (tableSort precedes l).Perm l := List.perm_insertionSort _ _

@[simp] theorem mem_tableSort {precedes : α → α → Bool} {l : List α} {a : α} :
    a ∈ tableSort precedes l ↔ a ∈ l := (tableSort_perm precedes l).mem_iff

@[simp] theorem length_tableSort {precedes : α → α → Bool} {l : List α} :
    (tableSort precedes l).length = l.length := (tableSort_perm precedes l).length_eq

section Keys

variable {precedes : α → α → Bool} {key : α → κ}
  (hkey : ∀ a b, precedes a b = true ↔ key a < key b)
include hkey

theorem precedes_eq_false {a b : α} : precedes b a = false ↔ key a ≤ key b := by
  rw [← Bool.not_eq_true, hkey, not_lt]

theorem tableSort_ascending (l : List α) :
    (tableSort precedes l).Pairwise fun a b => key a ≤ key b := by
  have : Std.Total fun a b => precedes b a = false := ⟨fun a b => by
    rw [precedes_eq_false hkey, precedes_eq_false hkey]
    exact le_total (key a) (key b)⟩
  have : IsTrans α fun a b => precedes b a = false := ⟨fun a b c hab hbc => by
    rw [precedes_eq_false hkey] at hab hbc ⊢
    exact hab.trans hbc⟩
  refine (List.pairwise_insertionSort _ l).imp fun h => ?_
  rwa [precedes_eq_false hkey] at h

theorem tableSort_strict {l : List α} (h : (l.map key).Nodup) :
    (tableSort precedes l).Pairwise fun a b => key a < key b := by
  have hnodup : ((tableSort precedes l).map key).Nodup :=
    ((tableSort_perm precedes l).map key).nodup_iff.mpr h
  exact ((tableSort_ascending hkey l).and (List.pairwise_map.mp hnodup)).imp fun h =>
    lt_of_le_of_ne h.1 h.2

theorem tableSort_of_ascending {l : List α} (h : l.Pairwise fun a b => key a ≤ key b) :
    tableSort precedes l = l :=
  List.Pairwise.insertionSort_eq (h.imp (precedes_eq_false hkey).mpr)

end Keys

end Space2.Base
