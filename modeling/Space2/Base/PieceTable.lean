import Mathlib

/-!
# Piece tables

A text kept as a list of pieces, each a window of one of several backing
stores. The text is what the pieces spell, one after the other. Cutting a
window in two and joining two windows that meet do not change what is spelled.
-/
namespace Space2
variable {α σ : Type}

structure Piece (σ : Type) where
  source : σ
  offset : Nat
  bytes : Nat
  deriving DecidableEq, Repr

namespace Piece
variable {stores : σ → List α}

def spell (stores : σ → List α) (piece : Piece σ) : List α :=
  ((stores piece.source).drop piece.offset).take piece.bytes

def Within (stores : σ → List α) (piece : Piece σ) : Prop :=
  piece.offset + piece.bytes ≤ (stores piece.source).length

def spelled (stores : σ → List α) (pieces : List (Piece σ)) : List α :=
  pieces.flatMap (spell stores)

theorem length_spell {piece : Piece σ} (h : piece.Within stores) :
    (piece.spell stores).length = piece.bytes := by
  rw [spell, List.length_take, List.length_drop]
  unfold Within at h
  omega

theorem spell_empty (source : σ) (offset : Nat) : spell stores ⟨source, offset, 0⟩ = [] := by
  rw [spell, List.take_zero]

theorem spell_join (source : σ) (offset left right : Nat) :
    spell stores ⟨source, offset, left⟩ ++ spell stores ⟨source, offset + left, right⟩ =
      spell stores ⟨source, offset, left + right⟩ := by
  simp only [spell, List.take_add, List.drop_drop]

theorem drop_take_spell (piece : Piece σ) (start finish : Nat) :
    ((piece.spell stores).take finish).drop start =
      spell stores ⟨piece.source, piece.offset + start, min finish piece.bytes - start⟩ := by
  simp only [spell, List.take_take, List.drop_take, List.drop_drop]

@[simp] theorem spelled_nil : spelled stores [] = [] := rfl

@[simp] theorem spelled_cons (piece : Piece σ) (rest : List (Piece σ)) :
    spelled stores (piece :: rest) = piece.spell stores ++ spelled stores rest := rfl

@[simp] theorem spelled_append (front back : List (Piece σ)) :
    spelled stores (front ++ back) = spelled stores front ++ spelled stores back :=
  List.flatMap_append

theorem length_spelled {pieces : List (Piece σ)} (h : ∀ piece ∈ pieces, piece.Within stores) :
    (spelled stores pieces).length = (pieces.map Piece.bytes).sum := by
  induction pieces with
  | nil => rfl
  | cons piece rest ih =>
    rw [spelled_cons, List.length_append, length_spell (h piece List.mem_cons_self),
      ih fun other hmem => h other (List.mem_cons_of_mem piece hmem), List.map_cons,
      List.sum_cons]

section Extend
variable {stores' : σ → List α} (hextend : ∀ source, stores source <+: stores' source)
include hextend

theorem Within.extend {piece : Piece σ} (h : piece.Within stores) : piece.Within stores' := by
  have hlength := (hextend piece.source).length_le
  unfold Within at *
  omega

/-- Stores that only grow keep what the pieces spell. -/
theorem spell_extend {piece : Piece σ} (h : piece.Within stores) :
    piece.spell stores' = piece.spell stores := by
  obtain ⟨added, hadded⟩ := hextend piece.source
  unfold Within at h
  rw [spell, spell, ← hadded, List.drop_append_of_le_length (by omega),
    List.take_append_of_le_length (by rw [List.length_drop]; omega)]

theorem spelled_extend {pieces : List (Piece σ)} (h : ∀ piece ∈ pieces, piece.Within stores) :
    spelled stores' pieces = spelled stores pieces := by
  induction pieces with
  | nil => rfl
  | cons piece rest ih =>
    rw [spelled_cons, spelled_cons, spell_extend hextend (h piece List.mem_cons_self),
      ih fun other hmem => h other (List.mem_cons_of_mem piece hmem)]

end Extend

end Piece
end Space2
