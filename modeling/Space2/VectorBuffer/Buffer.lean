import Mathlib
import Space2.Base.Raising

/-!
# The vertex buffer

One array of floats out of which blocks are handed. Sizes and indices are of type
`size_t`, which wraps around. The floats are those of a type `F`, and the allocator of
the array may refuse to grow it.
-/
namespace Space2.VectorBuffer
open Base

/-- `size_t` -/
def wrap (n : Nat) : Nat := n % 2 ^ 64

/-- `static_cast<size_t>(-1)` -/
def noIndex : Nat := 2 ^ 64 - 1

structure VectorHandle where
  index : Nat
  size : Nat
deriving DecidableEq

abbrev Buckets := List (Nat × List VectorHandle)

/-- `buffer` is read below `capacity`. The tables are in the order in which they are
visited; an entry of `active` maps its index to its size. -/
structure State (F : Type) where
  buffer : Nat → F
  capacity : Nat
  freeFrom : Nat
  dirtyFrom : Nat
  dirtyTo : Nat
  freed : Buckets
  active : List VectorHandle

variable {F : Type}

abbrev BufferOp (F α : Type) := Op (State F) α

/-! ## The dirty range -/

def State.hasDirty (s : State F) : Bool := s.dirtyFrom ≠ noIndex ∧ s.dirtyTo > s.dirtyFrom

def State.clearDirty (s : State F) : State F := { s with dirtyFrom := noIndex, dirtyTo := 0 }

def State.markDirty (start size : Nat) (s : State F) : State F :=
  if size = 0 then s
  else if start ≥ s.freeFrom then s
  else
    let stop := if wrap (start + size) > s.freeFrom then s.freeFrom else wrap (start + size)
    if s.hasDirty = false then { s with dirtyFrom := start, dirtyTo := stop }
    else
      { s with
        dirtyFrom := if start < s.dirtyFrom then start else s.dirtyFrom
        dirtyTo := if stop > s.dirtyTo then stop else s.dirtyTo }

def State.clampDirtyToLength (s : State F) : State F :=
  if s.hasDirty = false then s
  else if s.dirtyFrom ≥ s.freeFrom then s.clearDirty
  else if s.dirtyTo > s.freeFrom then { s with dirtyTo := s.freeFrom }
  else s

/-! ## The tables -/

def State.activeSize (s : State F) (index : Nat) : Option Nat :=
  (s.active.find? fun entry => entry.index = index).map VectorHandle.size

def State.eraseActive (index : Nat) (s : State F) : State F :=
  { s with active := s.active.filter fun entry => entry.index ≠ index }

def State.putActive (index size : Nat) (s : State F) : State F :=
  { s with active := ⟨index, size⟩ :: s.active.filter fun entry => entry.index ≠ index }

/-- The first block of the size, with the tables it leaves. -/
def takeFreed (size : Nat) : Buckets → Option (VectorHandle × Buckets)
  | [] => none
  | (key, handles) :: rest =>
    if key = size then
      match handles with
      | [] => none
      | [handle] => some (handle, rest)
      | handle :: others => some (handle, (key, others) :: rest)
    else (takeFreed size rest).map fun taken => (taken.1, (key, handles) :: taken.2)

def pushFreed (handle : VectorHandle) : Buckets → Buckets
  | [] => [(handle.size, [handle])]
  | (key, handles) :: rest =>
    if key = handle.size then (key, handles ++ [handle]) :: rest
    else (key, handles) :: pushFreed handle rest

/-- The first block of a bucket that ends at `freeFrom`. -/
def takeEnding (freeFrom : Nat) : List VectorHandle → Option (VectorHandle × List VectorHandle)
  | [] => none
  | handle :: rest =>
    if wrap (handle.index + handle.size) = freeFrom then some (handle, rest)
    else (takeEnding freeFrom rest).map fun taken => (taken.1, handle :: taken.2)

/-- One pass over the buckets, which drops those it finds empty and stops at a block that
ends at `freeFrom`. -/
def sweepTail (freeFrom : Nat) : Buckets → Option VectorHandle × Buckets
  | [] => (none, [])
  | (key, handles) :: rest =>
    match takeEnding freeFrom handles with
    | some (handle, []) => (some handle, rest)
    | some (handle, others) => (some handle, (key, others) :: rest)
    | none =>
      if handles = [] then sweepTail freeFrom rest
      else ((sweepTail freeFrom rest).1, (key, handles) :: (sweepTail freeFrom rest).2)

def blocks (freed : Buckets) : List VectorHandle := freed.flatMap Prod.snd

/-- Passes until one releases nothing; each pass that goes on releases a block. -/
def releaseTail : Nat → Nat → Buckets → Nat × Buckets
  | 0, freeFrom, freed => (freeFrom, freed)
  | passes + 1, freeFrom, freed =>
    match sweepTail freeFrom freed with
    | (some handle, rest) => releaseTail passes handle.index rest
    | (none, rest) => (freeFrom, rest)

def State.releaseTailFreeBlocks (s : State F) : State F :=
  let released := releaseTail ((blocks s.freed).length + 1) s.freeFrom s.freed
  { s with freeFrom := released.1, freed := released.2 }

/-! ## Blocks -/

def validateHandle (handle : VectorHandle) (label : String) : BufferOp F Unit :=
  if handle.size = 0 then pure ()
  else do
    let s ← Op.get
    Op.require (¬ (handle.index > s.capacity ∨ handle.size > s.capacity - handle.index))
      (label ++ " out of bounds: invalid handle")
    Op.require (s.activeSize handle.index = some handle.size)
      (label ++ " invalid handle: handle is not active")

section Zero
variable [Zero F]

def State.fillZero (start size : Nat) (s : State F) : State F :=
  { s with buffer := fun position =>
      if start ≤ position ∧ position < start + size then 0 else s.buffer position }

def zeroRegion (start size : Nat) : BufferOp F Unit :=
  if size = 0 then pure ()
  else do
    let s ← Op.get
    Op.require (¬ (start > s.capacity ∨ size > s.capacity - start))
      "VectorBuffer.zeroRegion out of bounds"
    Op.modify (State.markDirty start size)
    Op.modify (State.fillZero start size)

def State.grow (newSize : Nat) (s : State F) : State F :=
  { s with
    capacity := newSize
    buffer := fun position => if position < s.capacity then s.buffer position else 0 }

/-- `max_size` of a `std::vector<float>` -/
def maxSize : Nat := 2 ^ 61 - 1

def resizeBuffer (allocates : Nat → Bool) (newSize : Nat) : BufferOp F Unit := do
  let s ← Op.get
  Op.require (¬ newSize ≤ s.capacity) "Cannot downsize buffer manually."
  Op.require (newSize ≤ maxSize) "vector::_M_default_append"
  Op.require (allocates newSize = true) "std::bad_alloc"
  Op.modify (State.grow newSize)

def State.extend (size : Nat) (s : State F) : State F :=
  ({ s with freeFrom := wrap (s.freeFrom + size) } : State F).putActive s.freeFrom size

def allocate (allocates : Nat → Bool) (size : Nat) : BufferOp F VectorHandle := do
  let s ← Op.get
  if size = 0 then pure ⟨s.freeFrom, 0⟩
  else
    match takeFreed size s.freed with
    | some (handle, freed) =>
      Op.modify fun s => ({ s with freed := freed } : State F).putActive handle.index handle.size
      pure handle
    | none =>
      if wrap (s.freeFrom + size) > s.capacity then
        resizeBuffer allocates (wrap (2 * s.capacity + size))
      else pure ()
      Op.modify (State.extend size)
      pure ⟨s.freeFrom, size⟩

def releaseRegion (handle : VectorHandle) : BufferOp F Unit := do
  let s ← Op.get
  if handle.size = 0 then pure ()
  else if wrap (handle.index + handle.size) = s.freeFrom then do
    Op.modify fun s => { s with freeFrom := handle.index }
    Op.modify State.releaseTailFreeBlocks
    Op.modify State.clampDirtyToLength
  else do
    zeroRegion handle.index handle.size
    Op.modify fun s => { s with freed := pushFreed handle s.freed }

def deleteHandle (handle : VectorHandle) : BufferOp F Unit :=
  if handle.size = 0 then pure ()
  else do
    validateHandle handle "VectorBuffer.delete"
    Op.modify (State.eraseActive handle.index)
    releaseRegion handle

/-- Answers what becomes of the handle. -/
def reallocate (allocates : Nat → Bool) (handle : VectorHandle) (newSize : Nat) :
    BufferOp F VectorHandle :=
  if newSize = handle.size then pure handle
  else do
    validateHandle handle "VectorBuffer.reallocate"
    if newSize < handle.size then do
      if newSize = 0 then Op.modify (State.eraseActive handle.index)
      else Op.modify (State.putActive handle.index newSize)
      releaseRegion ⟨wrap (handle.index + newSize), handle.size - newSize⟩
      pure { handle with size := newSize }
    else do
      deleteHandle handle
      allocate allocates newSize

/-- `VectorBuffer(size_t initialSize)` -/
def State.initial (initialSize : Nat) : State F where
  buffer _ := 0
  capacity := initialSize
  freeFrom := 0
  dirtyFrom := noIndex
  dirtyTo := 0
  freed := []
  active := []

end Zero

/-! ## Setters -/

/-- A setter's copy, and the range it marks. -/
def State.write (position : Nat) (values : List F) (s : State F) : State F :=
  { s with buffer := fun other =>
      if position ≤ other then (values[other - position]?).getD (s.buffer other)
      else s.buffer other }

def validateHandleRange (handle : VectorHandle) (offset count : Nat) (label : String) :
    BufferOp F Unit := do
  Op.require (handle.size ≠ 0) (label ++ " requires a non-empty handle")
  Op.require (¬ wrap (offset + count) > handle.size)
    (label ++ " out of bounds: offset exceeds handle size")
  validateHandle handle label

def setRange (label : String) (handle : VectorHandle) (offset : Nat) (values : List F) :
    BufferOp F Unit := do
  validateHandleRange handle offset values.length label
  Op.modify (State.write (handle.index + offset) values)
  Op.modify (State.markDirty (wrap (handle.index + offset)) values.length)

/-- Writes and marks the floats that differ, and counts them. -/
def writeDiff (differs : F → F → Bool) : Nat → List F → State F → Nat × State F
  | _, [], s => (0, s)
  | position, next :: rest, s =>
    if differs (s.buffer position) next = true then
      let written := writeDiff differs (position + 1) rest
        ((s.write position [next]).markDirty (wrap position) 1)
      (written.1 + 1, written.2)
    else writeDiff differs (position + 1) rest s

def setRangeDiff (differs : F → F → Bool) (label : String) (handle : VectorHandle) (offset : Nat)
    (values : List F) : BufferOp F Nat := do
  validateHandleRange handle offset values.length label
  let s ← Op.get
  Op.modify fun s => (writeDiff differs (handle.index + offset) values s).2
  pure (writeDiff differs (handle.index + offset) values s).1

def setGlmVec4 (handle : VectorHandle) (offset : Nat) (vec : Vector F 4) : BufferOp F Unit :=
  setRange "VectorBuffer.set-glm-vec4" handle offset vec.toList

def setGlmVec3 (handle : VectorHandle) (offset : Nat) (vec : Vector F 3) : BufferOp F Unit :=
  setRange "VectorBuffer.set-glm-vec3" handle offset vec.toList

def setGlmVec2 (handle : VectorHandle) (offset : Nat) (vec : Vector F 2) : BufferOp F Unit :=
  setRange "VectorBuffer.set-glm-vec2" handle offset vec.toList

def setGlmMat4 (handle : VectorHandle) (offset : Nat) (mat : Vector F 16) : BufferOp F Unit :=
  setRange "VectorBuffer.set-glm-mat4" handle offset mat.toList

def setGlmMat4Diff (differs : F → F → Bool) (handle : VectorHandle) (offset : Nat)
    (mat : Vector F 16) : BufferOp F Nat :=
  setRangeDiff differs "VectorBuffer.set-glm-mat4-diff" handle offset mat.toList

def setGlmMat4Batch (handles : List VectorHandle) (offset : Nat) (mats : List (Vector F 16)) :
    BufferOp F Unit :=
  if handles = [] then pure ()
  else do
    Op.require (handles.length = mats.length)
      "VectorBuffer.set-glm-mat4-batch requires equal handle and matrix counts"
    Op.forEach (handles.zip mats) fun (handle, mat) =>
      setRange "VectorBuffer.set-glm-mat4-batch" handle offset mat.toList

/-- The counts of a batch are added up. -/
def countEach (set : VectorHandle × Vector F 16 → BufferOp F Nat) :
    List (VectorHandle × Vector F 16) → BufferOp F Nat
  | [] => pure 0
  | next :: rest => do
    let changed ← set next
    let others ← countEach set rest
    pure (changed + others)

def setGlmMat4DiffBatch (differs : F → F → Bool) (handles : List VectorHandle) (offset : Nat)
    (mats : List (Vector F 16)) : BufferOp F Nat :=
  if handles = [] then pure 0
  else do
    Op.require (handles.length = mats.length)
      "VectorBuffer.set-glm-mat4-diff-batch requires equal handle and matrix counts"
    countEach (fun (handle, mat) =>
      setRangeDiff differs "VectorBuffer.set-glm-mat4-diff-batch" handle offset mat.toList)
      (handles.zip mats)

def setFloat (handle : VectorHandle) (offset : Nat) (value : F) : BufferOp F Unit :=
  setRange "VectorBuffer.set-float" handle offset [value]

/-- The floats of a byte string whose length is a multiple of four. -/
def floatsOfBytes (float : UInt8 → UInt8 → UInt8 → UInt8 → F) : List UInt8 → List F
  | a :: b :: c :: d :: rest => float a b c d :: floatsOfBytes float rest
  | _ => []

/-- Its checks are its own: the range is checked before the handle, which may be empty. -/
def setFloatsFromBytes (float : UInt8 → UInt8 → UInt8 → UInt8 → F) (handle : VectorHandle)
    (offset : Nat) (bytes : List UInt8) : BufferOp F Unit :=
  if bytes = [] then pure ()
  else do
    Op.require (bytes.length % 4 = 0)
      "VectorBuffer.set-floats-from-bytes requires float-aligned byte size"
    let values := floatsOfBytes float bytes
    Op.require (¬ wrap (offset + bytes.length / 4) > handle.size)
      "VectorBuffer.set-floats-from-bytes exceeds handle size"
    validateHandle handle "VectorBuffer.set-floats-from-bytes"
    Op.modify (State.write (handle.index + offset) values)
    Op.modify (State.markDirty (wrap (handle.index + offset)) (bytes.length / 4))

/-- Each handle takes the next `stride` values. -/
def setEach (offset stride : Nat) : List VectorHandle → List F → BufferOp F Unit
  | [], _ => pure ()
  | handle :: rest, values => do
    setRange "VectorBuffer.set-floats-batch" handle offset (values.take stride)
    setEach offset stride rest (values.drop stride)

def setFloatsBatch (handles : List VectorHandle) (offset : Nat) (values : List F) (stride : Nat) :
    BufferOp F Unit := do
  Op.require (stride ≠ 0) "VectorBuffer.set-floats-batch requires a non-zero stride"
  if handles = [] then pure ()
  else do
    Op.require (¬ values.length < wrap (handles.length * stride))
      "VectorBuffer.set-floats-batch missing values for handles"
    setEach offset stride handles values

def setFloatsDiff (differs : F → F → Bool) (handle : VectorHandle) (offset : Nat)
    (values : List F) : BufferOp F Nat :=
  if values = [] then pure 0
  else setRangeDiff differs "VectorBuffer.set-floats-diff" handle offset values

def setFloatFillDiff (differs : F → F → Bool) (handle : VectorHandle) (offset count : Nat)
    (value : F) : BufferOp F Nat :=
  if count = 0 then pure 0
  else setRangeDiff differs "VectorBuffer.set-float-fill-diff" handle offset
    (List.replicate count value)

end Space2.VectorBuffer
