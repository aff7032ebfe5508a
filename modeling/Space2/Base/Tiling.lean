import Mathlib

/-!
# Tilings of an initial segment

Blocks of positions that do not overlap and together cover `[0, n)`, in any order. A
tiling is kept when a block is added at its end, when one is cut in two and when the last
one is taken away.
-/
namespace Space2.Base

structure Block where
  start : Nat
  size : Nat
deriving DecidableEq

namespace Block

def stop (block : Block) : Nat := block.start + block.size

def Covers (block : Block) (position : Nat) : Prop :=
  block.start ≤ position ∧ position < block.stop

def Apart (first second : Block) : Prop := ∀ position, ¬ (first.Covers position ∧ second.Covers position)

theorem Apart.symm {first second : Block} (h : Apart first second) : Apart second first :=
  fun position hboth => h position hboth.symm

instance : Std.Symm Apart := ⟨fun _ _ h => h.symm⟩

theorem Apart.of_le {first second : Block} (h : first.stop ≤ second.start) : Apart first second := by
  rintro position ⟨hfirst, hsecond⟩
  exact absurd (Nat.lt_of_lt_of_le hfirst.2 (h.trans hsecond.1)) (Nat.lt_irrefl _)

end Block

structure Tiles (blocks : List Block) (length : Nat) : Prop where
  nonempty : ∀ block ∈ blocks, 0 < block.size
  apart : blocks.Pairwise Block.Apart
  covers : ∀ position, position < length ↔ ∃ block ∈ blocks, block.Covers position

namespace Tiles

variable {blocks : List Block} {length : Nat}

theorem nil : Tiles [] 0 := by
  refine ⟨fun _ h => absurd h List.not_mem_nil, List.Pairwise.nil, fun position => ?_⟩
  simp

theorem perm {others : List Block} (h : Tiles blocks length) (hperm : blocks.Perm others) :
    Tiles others length where
  nonempty block hblock := h.nonempty block (hperm.mem_iff.2 hblock)
  apart := h.apart.perm hperm fun hapart => hapart.symm
  covers position := by
    rw [h.covers]
    exact exists_congr fun block => and_congr_left fun _ => hperm.mem_iff

theorem stop_le (h : Tiles blocks length) {block : Block} (hblock : block ∈ blocks) :
    block.stop ≤ length := by
  have hpos := h.nonempty block hblock
  have hlast : block.Covers (block.stop - 1) := by
    unfold Block.Covers Block.stop
    omega
  have hlt := (h.covers _).2 ⟨block, hblock, hlast⟩
  omega

theorem eq_of_covers (h : Tiles blocks length) {first second : Block} (hfirst : first ∈ blocks)
    (hsecond : second ∈ blocks) {position : Nat} (hcovers : first.Covers position)
    (hother : second.Covers position) : first = second := by
  by_contra hne
  exact h.apart.forall hfirst hsecond hne position ⟨hcovers, hother⟩

theorem nodup (h : Tiles blocks length) : blocks.Nodup := by
  refine h.apart.imp_of_mem fun {first second} hfirst _ hapart hsame => ?_
  have hpos := h.nonempty first hfirst
  have hcovers : first.Covers first.start := ⟨Nat.le_refl _, Nat.lt_add_of_pos_right hpos⟩
  exact hapart first.start ⟨hcovers, hsame ▸ hcovers⟩

theorem push (h : Tiles blocks length) {size : Nat} (hsize : 0 < size) :
    Tiles (⟨length, size⟩ :: blocks) (length + size) where
  nonempty := List.forall_mem_cons.2 ⟨hsize, h.nonempty⟩
  apart := List.pairwise_cons.2
    ⟨fun _ hblock => (Block.Apart.of_le (h.stop_le hblock)).symm, h.apart⟩
  covers position := by
    rw [List.exists_mem_cons_iff, ← h.covers]
    unfold Block.Covers Block.stop
    dsimp only
    omega

/-- A block is cut in two. -/
theorem cut {start first second : Nat} (h : Tiles (⟨start, first + second⟩ :: blocks) length)
    (hfirst : 0 < first) (hsecond : 0 < second) :
    Tiles (⟨start, first⟩ :: ⟨start + first, second⟩ :: blocks) length := by
  obtain ⟨hapart, hrest⟩ := List.pairwise_cons.1 h.apart
  have hinside : ∀ position, (⟨start, first⟩ : Block).Covers position ∨
      (⟨start + first, second⟩ : Block).Covers position ↔
        (⟨start, first + second⟩ : Block).Covers position := by
    intro position
    unfold Block.Covers Block.stop
    dsimp only
    omega
  refine ⟨?_, ?_, fun position => ?_⟩
  · exact List.forall_mem_cons.2 ⟨hfirst, List.forall_mem_cons.2
      ⟨hsecond, fun block hblock => h.nonempty block (List.mem_cons_of_mem _ hblock)⟩⟩
  · refine List.pairwise_cons.2 ⟨List.forall_mem_cons.2 ⟨Block.Apart.of_le (Nat.le_refl _), ?_⟩,
      List.pairwise_cons.2 ⟨?_, hrest⟩⟩
    · exact fun block hblock position hboth =>
        hapart block hblock position ⟨(hinside position).1 (.inl hboth.1), hboth.2⟩
    · exact fun block hblock position hboth =>
        hapart block hblock position ⟨(hinside position).1 (.inr hboth.1), hboth.2⟩
  · rw [h.covers, List.exists_mem_cons_iff, List.exists_mem_cons_iff, List.exists_mem_cons_iff,
      ← hinside position, or_assoc]

/-- The block at the end is taken away. -/
theorem pop {block : Block} (h : Tiles (block :: blocks) length) (hend : block.stop = length) :
    Tiles blocks block.start := by
  obtain ⟨hapart, hrest⟩ := List.pairwise_cons.1 h.apart
  refine ⟨fun other hother => h.nonempty other (List.mem_cons_of_mem _ hother), hrest,
    fun position => ⟨fun hlt => ?_, ?_⟩⟩
  · have hle : block.start ≤ length := hend ▸ Nat.le_add_right _ _
    obtain ⟨other, hother, hcovers⟩ := (h.covers position).1 (Nat.lt_of_lt_of_le hlt hle)
    rcases List.mem_cons.1 hother with rfl | hother
    · exact absurd hcovers.1 (Nat.not_le_of_lt hlt)
    · exact ⟨other, hother, hcovers⟩
  · rintro ⟨other, hother, hcovers⟩
    by_contra hnot
    have hlt := (h.covers position).2 ⟨other, List.mem_cons_of_mem _ hother, hcovers⟩
    exact hapart other hother position ⟨⟨Nat.le_of_not_lt hnot, hend ▸ hlt⟩, hcovers⟩

end Tiles

end Space2.Base
