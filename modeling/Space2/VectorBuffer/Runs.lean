import Space2.VectorBuffer.Setters

/-!
# Runs of the vertex buffer

Every call on live handles keeps the tables as long as no size wraps around and a
reallocation that grows finds room for its new size once its old block is released: it
deletes the old block before it allocates.
-/
namespace Space2.VectorBuffer
open Base Base.Op

variable {F : Type} [Zero F] {s : State F}

/-! ## Reallocation -/

theorem Sound.cut {loose : List VectorHandle} {handle : VectorHandle} (h : Sound (handle :: loose) s)
    {size : Nat} (hpos : 0 < size) (hlt : size < handle.size) :
    Sound (⟨handle.index, size⟩ :: ⟨handle.index + size, handle.size - size⟩ :: loose) s := by
  have hblock : handle.block = ⟨handle.index, size + (handle.size - size)⟩ := by
    rw [Nat.add_sub_of_le (Nat.le_of_lt hlt)]
    rfl
  have htiles := h.tiles
  rw [List.cons_append, List.cons_append, List.map_cons, hblock] at htiles
  exact ⟨htiles.cut hpos (Nat.sub_pos_of_lt hlt), h.keyed, h.tail, h.room, h.bounded, h.zeroed,
    h.dirty⟩

theorem putActive_eraseActive (index size : Nat) (s : State F) :
    (s.eraseActive index).putActive index size = s.putActive index size := by
  unfold State.putActive State.eraseActive
  dsimp only
  rw [List.filter_filter]
  simp only [Bool.and_self]

theorem Sound.shrink (h : Sound [] s) {handle : VectorHandle} (hactive : handle ∈ s.active)
    {size : Nat} (hpos : 0 < size) (hlt : size < handle.size) :
    Sound [⟨wrap (handle.index + size), handle.size - size⟩] (s.putActive handle.index size) := by
  have hstop := h.tiles.stop_le (h.mem_active hactive)
  have hlength := h.length_lt
  rw [wrap_of_lt (by unfold VectorHandle.block Block.stop at hstop; dsimp only at hstop; omega),
    ← putActive_eraseActive]
  exact ((h.eraseActive hactive).cut hpos hlt).putActive

/-- What shrinking a live handle leaves. -/
def State.shrunk (handle : VectorHandle) (newSize : Nat) (s : State F) : State F :=
  (if newSize = 0 then s.eraseActive handle.index
    else s.putActive handle.index newSize).released
      ⟨wrap (handle.index + newSize), handle.size - newSize⟩

theorem Sound.loosened (h : Sound [] s) {handle : VectorHandle} (hactive : handle ∈ s.active)
    {newSize : Nat} (hlt : newSize < handle.size) :
    Sound [⟨wrap (handle.index + newSize), handle.size - newSize⟩]
      (if newSize = 0 then s.eraseActive handle.index
        else s.putActive handle.index newSize) := by
  split_ifs with hzero
  · have herased := h.eraseActive hactive
    have hstop : handle.index + handle.size ≤ s.freeFrom := herased.loose_stop.2.1
    have hlength := h.length_lt
    rw [hzero, wrap_of_lt (by omega)]
    exact herased
  · exact h.shrink hactive (Nat.pos_of_ne_zero hzero) hlt

theorem Sound.reallocateShrink (allocates : Nat → Bool) (h : Sound [] s) {handle : VectorHandle}
    (hactive : handle ∈ s.active) {newSize : Nat} (hlt : newSize < handle.size) :
    reallocate allocates handle newSize s =
        (.ok { handle with size := newSize }, s.shrunk handle newSize) ∧
      Sound [] (s.shrunk handle newSize) := by
  have hloose := h.loosened hactive hlt
  refine ⟨?_, hloose.released⟩
  unfold VectorBuffer.reallocate
  rw [if_neg (Nat.ne_of_lt hlt), bind_ok (h.validateHandle (.inr hactive) _), if_pos hlt]
  split_ifs with hzero
  all_goals
    rw [modify_bind_run]
    dsimp only
    unfold State.shrunk
  · rw [if_pos hzero] at hloose ⊢
    rw [bind_ok hloose.releaseRegion]
    rfl
  · rw [if_neg hzero] at hloose ⊢
    rw [bind_ok hloose.releaseRegion]
    rfl

theorem Sound.reallocateGrow (allocates : Nat → Bool) (h : Sound [] s) {handle : VectorHandle}
    (hlive : Live handle s) {newSize : Nat} (hlt : handle.size < newSize) :
    reallocate allocates handle newSize s =
      VectorBuffer.allocate allocates newSize (s.deleted handle) := by
  unfold VectorBuffer.reallocate
  rw [if_neg (Nat.ne_of_gt hlt), bind_ok (h.validateHandle hlive _),
    if_neg (Nat.not_lt_of_gt hlt), bind_ok (h.deleteHandle hlive).1]

theorem Sound.reallocate {allocates : Nat → Bool} (h : Sound [] s) {handle : VectorHandle}
    (hlive : Live handle s) {newSize : Nat}
    (hgrow : handle.size < newSize → HasRoom allocates (s.deleted handle) newSize) :
    ∃ moved s', reallocate allocates handle newSize s = (.ok moved, s') ∧ Sound [] s' := by
  rcases Nat.lt_trichotomy newSize handle.size with hlt | hsame | hgt
  · have hactive := hlive.resolve_left (Nat.ne_of_gt (Nat.lt_of_le_of_lt (Nat.zero_le _) hlt))
    exact ⟨_, _, h.reallocateShrink allocates hactive hlt⟩
  · refine ⟨handle, s, ?_, h⟩
    unfold VectorBuffer.reallocate
    rw [if_pos hsame]
    rfl
  · have hroom := hgrow hgt
    have hdeleted := (h.deleteHandle hlive).2
    rw [h.reallocateGrow allocates hlive hgt]
    rcases hdeleted.allocate allocates (hdeleted.noWrap hroom) with hallocated | hrefused
    · obtain ⟨moved, s', hmoved, hsound⟩ := hallocated
      exact ⟨moved, s', hmoved, hsound⟩
    · obtain ⟨message, -, hnone⟩ := hrefused
      exact absurd hroom hnone

/-! ## Steps -/

inductive Action (F : Type) where
  | allocate (size : Nat)
  | reallocate (handle : VectorHandle) (newSize : Nat)
  | deleteHandle (handle : VectorHandle)
  | set (setter : Setter F)

namespace Action

def run (allocates : Nat → Bool) (floats : Floats F) : Action F → BufferOp F Unit
  | allocate size => do
    let _ ← VectorBuffer.allocate allocates size
  | reallocate handle newSize => do
    let _ ← VectorBuffer.reallocate allocates handle newSize
  | deleteHandle handle => VectorBuffer.deleteHandle handle
  | set setter => setter.run floats

/-- The calls of the allocator, on live handles. -/
def OnLive (s : State F) : Action F → Prop
  | allocate _ => True
  | reallocate handle _ => Live handle s
  | deleteHandle handle => Live handle s
  | set _ => False

/-- No size wraps around, and a block is given up for a larger one only where there is
room for that. -/
def Allowed (allocates : Nat → Bool) (s : State F) : Action F → Prop
  | allocate size => NoWrap size s
  | reallocate handle newSize => Live handle s ∧
      if handle.size = 0 then NoWrap newSize s
      else handle.size < newSize → HasRoom allocates (s.deleted handle) newSize
  | deleteHandle handle => Live handle s
  | set setter => setter.reach < 2 ^ 64

instance (s : State F) : (action : Action F) → Decidable (action.OnLive s)
  | allocate _ => inferInstanceAs (Decidable True)
  | reallocate handle _ => inferInstanceAs (Decidable (Live handle s))
  | deleteHandle handle => inferInstanceAs (Decidable (Live handle s))
  | set _ => inferInstanceAs (Decidable False)

instance (size : Nat) (s : State F) : Decidable (NoWrap size s) :=
  inferInstanceAs (Decidable (_ ∧ _))

instance (allocates : Nat → Bool) (s : State F) (size : Nat) : Decidable (HasRoom allocates s size) :=
  inferInstanceAs (Decidable (_ ∨ _ ∨ _ ∨ _ ∧ _))

instance (allocates : Nat → Bool) (s : State F) :
    (action : Action F) → Decidable (action.Allowed allocates s)
  | allocate size => inferInstanceAs (Decidable (NoWrap size s))
  | reallocate handle newSize => inferInstanceAs (Decidable (Live handle s ∧
      if handle.size = 0 then NoWrap newSize s
      else handle.size < newSize → HasRoom allocates (s.deleted handle) newSize))
  | deleteHandle handle => inferInstanceAs (Decidable (Live handle s))
  | set setter => inferInstanceAs (Decidable (setter.reach < 2 ^ 64))

def sets : Action F → Bool
  | set _ => true
  | _ => false

end Action

def step (allocates : Nat → Bool) (floats : Floats F) (s : State F) (action : Action F) : State F :=
  (action.run allocates floats s).2

/-- A call of the allocator that raises changes nothing. -/
def Unchanged (allocates : Nat → Bool) (floats : Floats F) (s : State F) (action : Action F) : Prop :=
  action.sets = false → ∀ message s', action.run allocates floats s = (.error message, s') → s' = s

theorem answered_kept {α : Type} {call : BufferOp F α} {a : α} {s' : State F} (h : WellFormed s')
    (hrun : call s = (.ok a, s')) :
    WellFormed ((do let _ ← call : BufferOp F Unit) s).2 ∧
      ∀ message other, (do let _ ← call : BufferOp F Unit) s = (.error message, other) →
        other = s := by
  rw [bind_ok hrun]
  refine ⟨h, fun message other herror => ?_⟩
  cases herror

theorem allocate_kept (allocates : Nat → Bool) (h : WellFormed s) {size : Nat}
    (hwrap : NoWrap size s) {call : BufferOp F VectorHandle}
    (hcall : call s = VectorBuffer.allocate allocates size s) :
    WellFormed ((do let _ ← call : BufferOp F Unit) s).2 ∧
      ∀ message s', (do let _ ← call : BufferOp F Unit) s = (.error message, s') → s' = s := by
  rcases h.allocate allocates hwrap with hallocated | hrefused
  · obtain ⟨handle, s', hrun, hsound⟩ := hallocated
    exact answered_kept hsound (hcall.trans hrun)
  · obtain ⟨message, hrun, -⟩ := hrefused
    rw [bind_error (hcall.trans hrun)]
    refine ⟨h, fun other s' herror => ?_⟩
    cases herror
    rfl

/-- One call. -/
theorem Action.Allowed.kept {allocates : Nat → Bool} (floats : Floats F) {action : Action F}
    (h : WellFormed s) (hallowed : action.Allowed allocates s) :
    WellFormed (step allocates floats s action) ∧ Unchanged allocates floats s action := by
  cases action with
  | allocate size =>
    obtain ⟨hsound, hsame⟩ := allocate_kept allocates h hallowed rfl
    exact ⟨hsound, fun _ => hsame⟩
  | reallocate handle newSize =>
    obtain ⟨hlive, hroom⟩ := hallowed
    by_cases hempty : handle.size = 0
    · rw [if_pos hempty] at hroom
      have hempty_run : newSize ≠ 0 → VectorBuffer.reallocate allocates handle newSize s =
          VectorBuffer.allocate allocates newSize s := by
        intro hsize
        rw [h.reallocateGrow allocates hlive (by omega)]
        unfold State.deleted
        rw [if_pos hempty]
      by_cases hsize : newSize = 0
      · have hrun : VectorBuffer.reallocate allocates handle newSize s = (.ok handle, s) := by
          unfold VectorBuffer.reallocate
          rw [if_pos (hsize.trans hempty.symm)]
          rfl
        obtain ⟨hsound, hsame⟩ := answered_kept h hrun
        exact ⟨hsound, fun _ => hsame⟩
      · obtain ⟨hsound, hsame⟩ := allocate_kept allocates h hroom
          (hempty_run hsize)
        exact ⟨hsound, fun _ => hsame⟩
    · rw [if_neg hempty] at hroom
      obtain ⟨moved, s', hrun, hmoved⟩ := h.reallocate hlive hroom
      obtain ⟨hsound, hsame⟩ := answered_kept hmoved hrun
      exact ⟨hsound, fun _ => hsame⟩
  | deleteHandle handle =>
    obtain ⟨hrun, hsound⟩ := h.deleteHandle hallowed
    unfold step Unchanged Action.run
    dsimp only
    rw [hrun]
    refine ⟨hsound, fun _ message other herror => ?_⟩
    cases herror
  | set setter =>
    have hensures := setter.ensures_run keptByWrites_sound (fun _ hs => hs) floats hallowed
    refine ⟨hensures.left (fun _ _ hs => hs) (fun _ hs => hs) h, fun hset => ?_⟩
    cases hset

theorem wellFormed_initial {initialSize : Nat} (h : initialSize ≤ maxSize) :
    WellFormed (State.initial initialSize : State F) where
  tiles := Tiles.nil
  keyed := fun _ hnone => absurd hnone List.not_mem_nil
  tail := fun _ hnone => absurd hnone List.not_mem_nil
  room := Nat.zero_le _
  bounded := h
  zeroed := fun _ hnone => absurd hnone List.not_mem_nil
  dirty := fun hdirty => by simp [State.hasDirty, State.initial] at hdirty

/-- In a run of allowed calls the blocks always tile the used part of the buffer, and no
call of the allocator that raises changes anything. -/
theorem wellFormed_run (allocates : Nat → Bool) (floats : Floats F) {initialSize : Nat}
    (hinitial : initialSize ≤ maxSize) (actions : List (Action F))
    (hallowed : Along (step allocates floats) (Action.Allowed allocates)
      (State.initial initialSize) actions) :
    WellFormed (actions.foldl (step allocates floats) (State.initial initialSize)) ∧
      Along (step allocates floats) (Unchanged allocates floats) (State.initial initialSize)
        actions := by
  have hkept : ∀ s action, WellFormed s → Action.Allowed allocates s action →
      WellFormed (step allocates floats s action) :=
    fun _ _ hs haction => (haction.kept floats hs).1
  constructor
  · exact hallowed.invariant hkept (wellFormed_initial hinitial)
  · exact hallowed.imp hkept (fun _ _ hs haction => (haction.kept floats hs).2)
      (wellFormed_initial hinitial)

theorem wellFormed_reused_run :
    WellFormed ([.allocate 4, .allocate 2, .set (.float ⟨0, 4⟩ 1 7), .reallocate ⟨0, 4⟩ 3,
        .deleteHandle ⟨4, 2⟩, .reallocate ⟨0, 3⟩ 8].foldl
      (step (fun _ => true) ⟨fun first second => decide (first ≠ second), fun _ _ _ _ => 0⟩)
      (State.initial 4 : State Int)) :=
  (wellFormed_run (fun _ => true) ⟨fun first second => decide (first ≠ second), fun _ _ _ _ => 0⟩
    (by decide) _ (by decide)).1

/-- A growth that raises has deleted the block. -/
theorem growth_loses_block :
    ¬ ∀ (allocates : Nat → Bool) (floats : Floats Int) (actions : List (Action Int)),
        Along (step allocates floats) Action.OnLive (State.initial 0) actions →
        WellFormed (actions.foldl (step allocates floats) (State.initial 0)) ∧
          Along (step allocates floats) (Unchanged allocates floats) (State.initial 0) actions := by
  intro hclaim
  have hruns := hclaim (fun _ => true) ⟨fun first second => decide (first ≠ second), fun _ _ _ _ => 0⟩
    [.allocate 1, .reallocate ⟨0, 1⟩ (2 ^ 62)] (by decide)
  have hsame := hruns.2.2.1 rfl "vector::_M_default_append" _ rfl
  exact absurd (congrArg State.active hsame) (by decide)

end Space2.VectorBuffer
