import Space2.VectorBuffer.Allocator

/-!
# Setters of the vertex buffer

Every setter is a sequence of writes inside of one active block, each followed by the
mark of what it wrote. What such writes keep, every setter keeps, also where it raises
half-way through a batch.
-/
namespace Space2.VectorBuffer
open Base Base.Op

variable {F : Type} [Zero F] {s : State F}

/-! ## Writes -/

theorem Sound.apart {loose : List VectorHandle} (h : Sound loose s) {handle other : VectorHandle}
    (hactive : handle ∈ s.active) (hfree : other ∈ blocks s.freed) :
    Block.Apart handle.block other.block := by
  have hapart := h.tiles.apart
  rw [List.map_append, List.pairwise_append] at hapart
  exact hapart.2.2 _ (List.mem_map_of_mem (List.mem_append_right _ hactive)) _
    (List.mem_map_of_mem hfree)

omit [Zero F] in
theorem write_outside (s : State F) {position other : Nat} {values : List F}
    (h : other < position ∨ position + values.length ≤ other) :
    (s.write position values).buffer other = s.buffer other := by
  dsimp only [State.write]
  split_ifs with hle
  · rw [List.getElem?_eq_none (by omega), Option.getD_none]
  · rfl

theorem Sound.write (h : Sound [] s) {handle : VectorHandle} (hactive : handle ∈ s.active)
    {position : Nat} {values : List F} (hstart : handle.index ≤ position)
    (hstop : position + values.length ≤ handle.block.stop) : Sound [] (s.write position values) := by
  refine ⟨h.tiles, h.keyed, h.tail, h.room, h.bounded, fun other hother spot hcovers => ?_, h.dirty⟩
  rw [write_outside s, h.zeroed other hother spot hcovers]
  by_contra hinside
  refine h.apart hactive hother spot ⟨⟨?_, ?_⟩, hcovers⟩
  · unfold VectorHandle.block
    dsimp only
    omega
  · omega

omit [Zero F] in
theorem active_markDirty (s : State F) (start size : Nat) :
    (s.markDirty start size).active = s.active := by
  unfold State.markDirty
  dsimp only
  split_ifs <;> rfl

omit [Zero F] in
theorem active_write (s : State F) (position : Nat) (values : List F) :
    (s.write position values).active = s.active := rfl

/-- What a write inside of an active block keeps, once it is marked. -/
def KeptByWrites (I : State F → Prop) : Prop :=
  ∀ ⦃s : State F⦄, I s → ∀ handle ∈ s.active, ∀ (position : Nat) (values : List F),
    handle.index ≤ position → position + values.length ≤ handle.block.stop →
      I ((s.write position values).markDirty (wrap position) values.length)

theorem keptByWrites_sound : KeptByWrites (WellFormed (F := F)) := by
  intro s hs handle hactive position values hstart hstop
  exact (hs.write hactive hstart hstop).markDirty _ _

variable {I : State F → Prop}

theorem writeDiff_kept (hkept : KeptByWrites I) (differs : F → F → Bool) {handle : VectorHandle}
    {values : List F} {position : Nat} (hs : I s) (hactive : handle ∈ s.active)
    (hstart : handle.index ≤ position) (hstop : position + values.length ≤ handle.block.stop) :
    I (writeDiff differs position values s).2 := by
  induction values generalizing position s with
  | nil => exact hs
  | cons next rest ih =>
    rw [List.length_cons] at hstop
    rw [writeDiff]
    split_ifs
    · have hwritten := hkept hs handle hactive position [next] hstart (by
        rw [List.length_singleton]
        omega)
      rw [List.length_singleton] at hwritten
      refine ih hwritten ?_ (by omega) (by omega)
      rw [active_markDirty]
      exact hactive
    · exact ih hs hactive (by omega) (by omega)

/-! ## Checks -/

/-- What the checks of a setter leave to its writes. -/
def Writable (I : State F → Prop) (handle : VectorHandle) (offset count : Nat) (s : State F) : Prop :=
  I s ∧ handle ∈ s.active ∧ handle.index + offset + count ≤ handle.block.stop

theorem ensures_validateHandle (hsound : ∀ s, I s → WellFormed s) {handle : VectorHandle}
    (hsize : handle.size ≠ 0) (label : String) :
    Ensures I (validateHandle handle label) (fun _ s => I s ∧ handle ∈ s.active) I := by
  unfold validateHandle
  rw [if_neg hsize]
  refine ensures_get fun s hs => ?_
  refine ensures_require_bind (fun _ => ?_) fun _ t ht => ht ▸ hs
  refine ensures_require (fun t ht hactive => ?_) fun t ht _ => ht ▸ hs
  rw [ht]
  exact ⟨hs, (hsound s hs).activeSize_iff.1 hactive⟩

theorem ensures_range (hsound : ∀ s, I s → WellFormed s) {handle : VectorHandle}
    {offset count : Nat} (hsize : handle.size ≠ 0) (hwrap : offset + count < 2 ^ 64)
    (hinside : ¬ wrap (offset + count) > handle.size) (label : String) :
    Ensures I (validateHandle handle label) (fun _ => Writable I handle offset count) I := by
  refine (ensures_validateHandle hsound hsize label).weaken (fun _ hs => hs) ?_ fun _ hs => hs
  rintro _ s ⟨hs, hactive⟩
  rw [wrap_of_lt hwrap] at hinside
  refine ⟨hs, hactive, ?_⟩
  unfold VectorHandle.block Block.stop
  dsimp only
  omega

theorem ensures_validateHandleRange (hsound : ∀ s, I s → WellFormed s) (handle : VectorHandle)
    {offset count : Nat} (hwrap : offset + count < 2 ^ 64) (label : String) :
    Ensures I (validateHandleRange handle offset count label)
      (fun _ => Writable I handle offset count) I := by
  unfold validateHandleRange
  refine ensures_require_bind (fun hsize => ?_) fun _ _ hs => hs
  refine ensures_require_bind (fun hinside => ?_) fun _ _ hs => hs
  exact ensures_range hsound hsize hwrap hinside label

/-! ## Ranges -/

theorem Writable.written (hkept : KeptByWrites I) {handle : VectorHandle} {offset : Nat}
    {values : List F} (h : Writable I handle offset values.length s) :
    I ((s.write (handle.index + offset) values).markDirty (wrap (handle.index + offset))
      values.length) := by
  obtain ⟨hs, hactive, hstop⟩ := h
  exact hkept hs handle hactive _ values (Nat.le_add_right _ _) hstop

theorem ensures_setRange (hkept : KeptByWrites I) (hsound : ∀ s, I s → WellFormed s)
    (label : String) (handle : VectorHandle) {offset : Nat} {values : List F}
    (hwrap : offset + values.length < 2 ^ 64) :
    Ensures I (setRange label handle offset values) (fun _ => I) I := by
  unfold setRange
  refine ensures_bind (ensures_validateHandleRange hsound handle hwrap label) fun _ => ?_
  refine ensures_modify_bind (fun s => I (s.markDirty (wrap (handle.index + offset)) values.length))
    (fun s hs => hs.written hkept) ?_
  exact ensures_modify fun _ hs => hs

theorem ensures_setRangeDiff (hkept : KeptByWrites I) (hsound : ∀ s, I s → WellFormed s)
    (differs : F → F → Bool) (label : String) (handle : VectorHandle) {offset : Nat}
    {values : List F} (hwrap : offset + values.length < 2 ^ 64) :
    Ensures I (setRangeDiff differs label handle offset values) (fun _ => I) I := by
  unfold setRangeDiff
  refine ensures_bind (ensures_validateHandleRange hsound handle hwrap label) fun _ => ?_
  refine ensures_get_kept fun s _ => ?_
  refine ensures_modify_bind I ?_ (ensures_pure fun _ hs => hs)
  rintro t ⟨ht, hactive, hstop⟩
  exact writeDiff_kept hkept differs ht hactive (Nat.le_add_right _ _) hstop

/-! ## Calls -/

/-- The calls that set floats. -/
inductive Setter (F : Type) where
  | glmVec4 (handle : VectorHandle) (offset : Nat) (vec : Vector F 4)
  | glmVec3 (handle : VectorHandle) (offset : Nat) (vec : Vector F 3)
  | glmVec2 (handle : VectorHandle) (offset : Nat) (vec : Vector F 2)
  | glmMat4 (handle : VectorHandle) (offset : Nat) (mat : Vector F 16)
  | glmMat4Diff (handle : VectorHandle) (offset : Nat) (mat : Vector F 16)
  | glmMat4Batch (handles : List VectorHandle) (offset : Nat) (mats : List (Vector F 16))
  | glmMat4DiffBatch (handles : List VectorHandle) (offset : Nat) (mats : List (Vector F 16))
  | float (handle : VectorHandle) (offset : Nat) (value : F)
  | floatsFromBytes (handle : VectorHandle) (offset : Nat) (bytes : List UInt8)
  | floatsBatch (handles : List VectorHandle) (offset : Nat) (values : List F) (stride : Nat)
  | floatsDiff (handle : VectorHandle) (offset : Nat) (values : List F)
  | floatFillDiff (handle : VectorHandle) (offset count : Nat) (value : F)

/-- How floats are compared and read. -/
structure Floats (F : Type) where
  differs : F → F → Bool
  ofBytes : UInt8 → UInt8 → UInt8 → UInt8 → F

namespace Setter

def run (floats : Floats F) : Setter F → BufferOp F Unit
  | glmVec4 handle offset vec => setGlmVec4 handle offset vec
  | glmVec3 handle offset vec => setGlmVec3 handle offset vec
  | glmVec2 handle offset vec => setGlmVec2 handle offset vec
  | glmMat4 handle offset mat => setGlmMat4 handle offset mat
  | glmMat4Diff handle offset mat => do
    let _ ← setGlmMat4Diff floats.differs handle offset mat
  | glmMat4Batch handles offset mats => setGlmMat4Batch handles offset mats
  | glmMat4DiffBatch handles offset mats => do
    let _ ← setGlmMat4DiffBatch floats.differs handles offset mats
  | float handle offset value => setFloat handle offset value
  | floatsFromBytes handle offset bytes => setFloatsFromBytes floats.ofBytes handle offset bytes
  | floatsBatch handles offset values stride => setFloatsBatch handles offset values stride
  | floatsDiff handle offset values => do
    let _ ← setFloatsDiff floats.differs handle offset values
  | floatFillDiff handle offset count value => do
    let _ ← setFloatFillDiff floats.differs handle offset count value

/-- One past the last float, counted from the start of a block, that the call touches. -/
def reach : Setter F → Nat
  | glmVec4 _ offset _ => offset + 4
  | glmVec3 _ offset _ => offset + 3
  | glmVec2 _ offset _ => offset + 2
  | glmMat4 _ offset _ | glmMat4Diff _ offset _ => offset + 16
  | glmMat4Batch _ offset _ | glmMat4DiffBatch _ offset _ => offset + 16
  | float _ offset _ => offset + 1
  | floatsFromBytes _ offset bytes => offset + bytes.length / 4
  | floatsBatch _ offset _ stride => offset + stride
  | floatsDiff _ offset values => offset + values.length
  | floatFillDiff _ offset count _ => offset + count

end Setter

omit [Zero F] in
theorem length_floatsOfBytes (float : UInt8 → UInt8 → UInt8 → UInt8 → F) (bytes : List UInt8) :
    (floatsOfBytes float bytes).length = bytes.length / 4 := by
  induction bytes using floatsOfBytes.induct with
  | case1 a b c d rest ih =>
    rw [floatsOfBytes, List.length_cons, ih]
    simp only [List.length_cons]
    omega
  | case2 bytes hshort =>
    rcases bytes with _ | ⟨a, _ | ⟨b, _ | ⟨c, _ | ⟨d, rest⟩⟩⟩⟩
    · rfl
    · simp [floatsOfBytes]
    · simp [floatsOfBytes]
    · simp [floatsOfBytes]
    · exact absurd rfl (hshort a b c d rest)

theorem ensures_setFloatsFromBytes (hkept : KeptByWrites I) (hsound : ∀ s, I s → WellFormed s)
    (float : UInt8 → UInt8 → UInt8 → UInt8 → F) (handle : VectorHandle) {offset : Nat}
    {bytes : List UInt8} (hwrap : offset + bytes.length / 4 < 2 ^ 64) :
    Ensures I (setFloatsFromBytes float handle offset bytes) (fun _ => I) I := by
  unfold setFloatsFromBytes
  by_cases hempty : bytes = []
  · rw [if_pos hempty]
    exact ensures_pure fun _ hs => hs
  · rw [if_neg hempty]
    refine ensures_require_bind (fun haligned => ?_) fun _ _ hs => hs
    refine ensures_require_bind (fun hinside => ?_) fun _ _ hs => hs
    have hpos : 0 < bytes.length := List.length_pos_of_ne_nil hempty
    have hsize : handle.size ≠ 0 := by
      rw [wrap_of_lt hwrap] at hinside
      omega
    refine ensures_bind (ensures_range hsound hsize hwrap hinside _) fun _ => ?_
    refine ensures_modify_bind
      (fun s => I (s.markDirty (wrap (handle.index + offset)) (bytes.length / 4))) ?_
      (ensures_modify fun _ hs => hs)
    intro s hs
    rw [← length_floatsOfBytes float bytes] at hs ⊢
    exact hs.written hkept

omit [Zero F] in
theorem ensures_countEach {set : VectorHandle × Vector F 16 → BufferOp F Nat}
    (h : ∀ next, Ensures I (set next) (fun _ => I) I) (l : List (VectorHandle × Vector F 16)) :
    Ensures I (countEach set l) (fun _ => I) I := by
  induction l with
  | nil => exact ensures_pure fun _ hs => hs
  | cons next rest ih =>
    refine ensures_bind (h next) fun _ => ensures_bind ih fun _ => ?_
    exact ensures_pure fun _ hs => hs

theorem ensures_setEach (hkept : KeptByWrites I) (hsound : ∀ s, I s → WellFormed s)
    {offset stride : Nat} (hwrap : offset + stride < 2 ^ 64) (handles : List VectorHandle)
    (values : List F) : Ensures I (setEach offset stride handles values) (fun _ => I) I := by
  induction handles generalizing values with
  | nil => exact ensures_pure fun _ hs => hs
  | cons handle rest ih =>
    refine ensures_bind (ensures_setRange hkept hsound _ handle ?_) fun _ => ih _
    rw [List.length_take]
    omega

theorem Setter.ensures_run (hkept : KeptByWrites I) (hsound : ∀ s, I s → WellFormed s)
    (floats : Floats F) (setter : Setter F) (hwrap : setter.reach < 2 ^ 64) :
    Ensures I (setter.run floats) (fun _ => I) I := by
  have hmat : ∀ (offset : Nat) (mat : Vector F 16), offset + 16 < 2 ^ 64 →
      offset + mat.toList.length < 2 ^ 64 := by
    intro offset mat hoffset
    rw [Vector.length_toList]
    exact hoffset
  have hdrop : ∀ {p : BufferOp F Nat}, Ensures I p (fun _ => I) I →
      Ensures I (do let _ ← p) (fun _ => I) I := fun h =>
    ensures_bind h fun _ => ensures_pure fun _ hs => hs
  cases setter with
  | glmVec4 handle offset vec =>
    exact ensures_setRange hkept hsound _ handle (by rw [Vector.length_toList]; exact hwrap)
  | glmVec3 handle offset vec =>
    exact ensures_setRange hkept hsound _ handle (by rw [Vector.length_toList]; exact hwrap)
  | glmVec2 handle offset vec =>
    exact ensures_setRange hkept hsound _ handle (by rw [Vector.length_toList]; exact hwrap)
  | glmMat4 handle offset mat => exact ensures_setRange hkept hsound _ handle (hmat offset mat hwrap)
  | glmMat4Diff handle offset mat =>
    exact hdrop (ensures_setRangeDiff hkept hsound _ _ handle (hmat offset mat hwrap))
  | glmMat4Batch handles offset mats =>
    show Ensures I (setGlmMat4Batch handles offset mats) (fun _ => I) I
    unfold setGlmMat4Batch
    split_ifs
    · exact ensures_pure fun _ hs => hs
    · refine ensures_require_bind (fun _ => ?_) fun _ _ hs => hs
      exact ensures_forEach_inv fun next _ =>
        ensures_setRange hkept hsound _ next.1 (hmat offset next.2 hwrap)
  | glmMat4DiffBatch handles offset mats =>
    refine hdrop ?_
    unfold setGlmMat4DiffBatch
    split_ifs
    · exact ensures_pure fun _ hs => hs
    · refine ensures_require_bind (fun _ => ?_) fun _ _ hs => hs
      exact ensures_countEach (fun next =>
        ensures_setRangeDiff hkept hsound _ _ next.1 (hmat offset next.2 hwrap)) _
  | float handle offset value => exact ensures_setRange hkept hsound _ handle hwrap
  | floatsFromBytes handle offset bytes =>
    exact ensures_setFloatsFromBytes hkept hsound _ handle hwrap
  | floatsBatch handles offset values stride =>
    show Ensures I (setFloatsBatch handles offset values stride) (fun _ => I) I
    unfold setFloatsBatch
    refine ensures_require_bind (fun _ => ?_) fun _ _ hs => hs
    split_ifs
    · exact ensures_pure fun _ hs => hs
    · refine ensures_require_bind (fun _ => ?_) fun _ _ hs => hs
      exact ensures_setEach hkept hsound hwrap handles values
  | floatsDiff handle offset values =>
    refine hdrop ?_
    unfold setFloatsDiff
    split_ifs
    · exact ensures_pure fun _ hs => hs
    · exact ensures_setRangeDiff hkept hsound _ _ handle hwrap
  | floatFillDiff handle offset count value =>
    refine hdrop ?_
    unfold setFloatFillDiff
    split_ifs
    · exact ensures_pure fun _ hs => hs
    · refine ensures_setRangeDiff hkept hsound _ _ handle ?_
      rw [List.length_replicate]
      exact hwrap

end Space2.VectorBuffer
