import Mathlib.Data.List.AList
import Space2.Base.TableSort
import Space2.Base.Worklist

/-!
# Raster layers

The pixels of a layer lie on square tiles. A tile is in memory, in a file or in both; the layer
remembers which files belong to it. A stroke is taken as the tiles it captures and the pixels it
paints, in order, and `blend` is what becomes of a pixel that is painted over. What is read from a
file is what was written to it, and no file or directory refuses an operation.
-/
namespace Space2.Drawing
open Base Base.Op

/-- The colours are multiplied by the alpha, so that nothing is left of them where it is zero. -/
structure Rgba where
  red : Nat
  green : Nat
  blue : Nat
  alpha : Nat
  premultiplied : alpha = 0 → red = 0 ∧ green = 0 ∧ blue = 0
deriving DecidableEq

def Rgba.transparent : Rgba := ⟨0, 0, 0, 0, fun _ => ⟨rfl, rfl, rfl⟩⟩

/-- `rgba-distance` -/
def Rgba.distance (left right : Rgba) : Nat :=
  max (max ((left.red : Int) - right.red).natAbs ((left.green : Int) - right.green).natAbs)
    (max ((left.blue : Int) - right.blue).natAbs ((left.alpha : Int) - right.alpha).natAbs)

def Rgba.withinTolerance (left right : Rgba) (tolerance : Int) : Bool :=
  decide ((left.distance right : Int) ≤ tolerance)

/-- The place of a tile among the tiles, across and up. -/
abbrev TileKey := Int × Int

instance : LawfulBEq TileKey := inferInstance

/-- The bytes of a tile, four to a pixel. -/
abbrev Pixels (size : Nat) := Vector Rgba (size * size)

structure Layer (size : Nat) where
  tiles : AList fun _ : TileKey => Pixels size
  persisted : List TileKey
  files : AList fun _ : TileKey => Pixels size

structure Bounds where
  left : Int
  right : Int
  bottom : Int
  top : Int
deriving DecidableEq, Repr

namespace Bounds

def contains (bounds : Bounds) (x y : Int) : Bool :=
  decide (bounds.left ≤ x ∧ x ≤ bounds.right ∧ bounds.bottom ≤ y ∧ y ≤ bounds.top)

def area (bounds : Bounds) : Int :=
  (bounds.right - bounds.left + 1) * (bounds.top - bounds.bottom + 1)

end Bounds

/-- The integers of `for`, both ends included. -/
def upTo (first last : Int) : List Int :=
  (List.range (last + 1 - first).toNat).map fun offset : Nat => first + offset

/-- Row by row from the bottom. -/
def Bounds.points (bounds : Bounds) : List (Int × Int) :=
  (upTo bounds.bottom bounds.top).flatMap fun y =>
    (upTo bounds.left bounds.right).map fun x => (x, y)

variable {size : Nat}

def tileKey (size : Nat) (point : Int × Int) : TileKey := (point.1 / size, point.2 / size)

/-- `pixel-index` of the point within its tile -/
def pixelIndex (size : Nat) [NeZero size] (point : Int × Int) : Fin (size * size) :=
  ⟨(point.2 % size).toNat * size + (point.1 % size).toNat, by
    have hsize : 0 < (size : Int) := by exact_mod_cast NeZero.pos size
    have hx := Int.emod_lt_of_pos point.1 hsize
    have hy := Int.emod_lt_of_pos point.2 hsize
    have hy' : (point.2 % size).toNat + 1 ≤ size := by omega
    calc (point.2 % size).toNat * size + (point.1 % size).toNat
        < (point.2 % size).toNat * size + size := by omega
      _ = ((point.2 % size).toNat + 1) * size := by ring
      _ ≤ size * size := Nat.mul_le_mul_right size hy'⟩

def blank (size : Nat) : Pixels size := Vector.replicate (size * size) .transparent

def tileEmpty (pixels : Pixels size) : Bool := pixels.all fun rgba => decide (rgba.alpha = 0)

namespace Layer

def setTile (s : Layer size) (key : TileKey) (pixels : Pixels size) : Layer size :=
  { s with tiles := s.tiles.insert key pixels }

def persist (s : Layer size) (key : TileKey) : Layer size :=
  { s with persisted := s.persisted.insert key }

/-- The tile is no longer in memory and its file no longer belongs to the layer. -/
def forget (s : Layer size) (key : TileKey) : Layer size :=
  { s with tiles := s.tiles.erase key, persisted := s.persisted.filter (· ≠ key) }

end Layer

def loadTileBytes (key : TileKey) : Op (Layer size) (Pixels size) := do
  let s ← get
  match s.files.lookup key with
  | some pixels => pure pixels
  | none => raise "Failed to load image"

def loadPersistedTile (key : TileKey) : Op (Layer size) (Option (Pixels size)) := do
  let s ← get
  match s.tiles.lookup key with
  | some pixels => pure (some pixels)
  | none =>
    if key ∈ s.persisted then do
      let loaded ← loadTileBytes key
      modify fun s => s.setTile key loaded
      pure (some loaded)
    else pure none

/-- A tile that is not in memory is read from its file, whether or not the file still belongs to the
layer. -/
def ensureTile (key : TileKey) : Op (Layer size) (Pixels size) := do
  let s ← get
  match s.tiles.lookup key with
  | some pixels => pure pixels
  | none =>
    if key ∈ s.persisted ∨ (s.files.lookup key).isSome = true then do
      let loaded ← loadTileBytes key
      modify fun s => (s.persist key).setTile key loaded
      pure loaded
    else do
      modify fun s => s.setTile key (blank size)
      pure (blank size)

section Pixels
variable [NeZero size]

def getPixelRgba (point : Int × Int) : Op (Layer size) Rgba := do
  match ← loadPersistedTile (tileKey size point) with
  | some pixels => pure (pixels.get (pixelIndex size point))
  | none => pure .transparent

def repaint (pixels : Pixels size) (point : Int × Int) (paint : Rgba → Rgba) : Pixels size :=
  pixels.set (pixelIndex size point) (paint (pixels.get (pixelIndex size point)))

/-- `set-pixel!` and `blend-pixel!` -/
def paintPixel (point : Int × Int) (paint : Rgba → Rgba) : Op (Layer size) Unit := do
  let pixels ← ensureTile (tileKey size point)
  modify fun s => s.setTile (tileKey size point) (repaint pixels point paint)

def setPixel (point : Int × Int) (rgba : Rgba) : Op (Layer size) Unit :=
  paintPixel point fun _ => rgba

end Pixels

/-! ## Captured tiles -/

structure Captured (size : Nat) where
  tile : TileKey
  bytes : Option (Pixels size)

structure Patch (size : Nat) where
  before : List (Captured size)
  after : List (Captured size)
  changed : Bool
  bounds : Option Bounds

def captureBytes : List TileKey → Op (Layer size) (List (Captured size))
  | [] => pure []
  | key :: keys => do
    let bytes ← loadPersistedTile key
    let rest ← captureBytes keys
    pure (⟨key, bytes⟩ :: rest)

def captureExistingBytes (keys : List TileKey) : Op (Layer size) (List (Captured size)) := do
  let before ← captureBytes keys
  pure (tableSort (fun left right =>
    if left.tile.2 = right.tile.2 then decide (left.tile.1 < right.tile.1)
    else decide (left.tile.2 < right.tile.2)) before)

def pruneEmptyTiles (keys : List TileKey) : Op (Layer size) Unit :=
  forEach keys fun key => modify fun s =>
    match s.tiles.lookup key with
    | some pixels => if tileEmpty pixels = true then s.forget key else s
    | none => s

def applyCaptured (entry : Captured size) : Op (Layer size) Unit :=
  match entry.bytes with
  | none => modify fun s => s.forget entry.tile
  | some bytes => do
    let _ ← ensureTile entry.tile
    modify fun s => (s.setTile entry.tile bytes).persist entry.tile

def applyCapturedBytes (captured : List (Captured size)) : Op (Layer size) Unit :=
  forEach captured applyCaptured

/-- What an edit does to its tiles, between the two captures. -/
def patched (keys : List TileKey) (bounds : Option Bounds) (edit : Op (Layer size) Unit) :
    Op (Layer size) (Patch size) := do
  let before ← captureExistingBytes keys
  edit
  pruneEmptyTiles keys
  let after ← captureBytes (before.map Captured.tile)
  pure ⟨before, after, true, bounds⟩

/-! ## Files -/

/-- What `save!` does with a tile in memory. -/
def saveTile (key : TileKey) : Op (Layer size) Unit :=
  modify fun s =>
    match s.tiles.lookup key with
    | some pixels =>
      if tileEmpty pixels = true then { s.forget key with files := s.files.erase key }
      else { s.persist key with files := s.files.insert key pixels }
    | none => s

/-- What `save!` does with a file in the directory. -/
def removeForeign (key : TileKey) : Op (Layer size) Unit :=
  modify fun s => if key ∈ s.persisted then s else { s with files := s.files.erase key }

def save : Op (Layer size) Unit := do
  let s ← get
  forEach s.tiles.keys saveTile
  let s ← get
  forEach s.files.keys removeForeign

/-- A runtime made anew for the same directory. -/
def Layer.reopened (s : Layer size) : Layer size :=
  { tiles := ∅, persisted := s.files.keys, files := s.files }

/-! ## Strokes and selections -/

structure Paint where
  point : Int × Int
  rgba : Rgba
  /-- the eraser sets pixels, everything else blends -/
  sets : Bool

/-- `keys` are the tiles of `collect-sample-tile-keys` or `collect-shape-tile-keys`, `paints` the
pixels that the tool stamps. -/
structure Stroke where
  keys : List TileKey
  paints : List Paint

def collectBoundsTileKeys (size : Nat) (bounds : Bounds) : List TileKey :=
  Bounds.points ⟨bounds.left / size, bounds.right / size, bounds.bottom / size, bounds.top / size⟩

/-- Pixels row by row from the bottom. -/
structure Fragment where
  width : Nat
  height : Nat
  bytes : List Rgba

/-- The fragment has the size of the bounds it was captured from or has been moved to. -/
structure Selection where
  bounds : Bounds
  fragment : Fragment
  width_eq : (fragment.width : Int) = bounds.right - bounds.left + 1
  height_eq : (fragment.height : Int) = bounds.top - bounds.bottom + 1

section Edits
variable [NeZero size] (blend : Rgba → Rgba → Rgba)

def stroke (stroke : Stroke) : Op (Layer size) (Patch size) :=
  patched stroke.keys none (forEach stroke.paints fun paint =>
    paintPixel paint.point fun under => if paint.sets = true then paint.rgba
      else blend under paint.rgba)

def clearRect (bounds : Bounds) : Op (Layer size) Unit :=
  forEach bounds.points fun point => setPixel point .transparent

def applyFragment (fragment : Fragment) (destX destY : Int) : Op (Layer size) Unit :=
  let points := Bounds.points
    ⟨destX, destX + fragment.width - 1, destY, destY + fragment.height - 1⟩
  forEach (points.zip fragment.bytes) fun entry =>
    if entry.2.alpha = 0 then pure () else paintPixel entry.1 fun under => blend under entry.2

def moveSelection (selection : Selection) (dx dy : Int) : Op (Layer size) (Patch size) :=
  let source := selection.bounds
  let dest : Bounds := ⟨source.left + dx, source.right + dx, source.bottom + dy, source.top + dy⟩
  patched (collectBoundsTileKeys size source ∪ collectBoundsTileKeys size dest) (some dest) do
    clearRect source
    applyFragment blend selection.fragment dest.left dest.bottom

def clearSelection (bounds : Bounds) : Op (Layer size) (Patch size) :=
  patched (collectBoundsTileKeys size bounds) (some bounds) (clearRect bounds)

end Edits
/-! ## Filling -/

/-- The four offsets of `tile-component-bounds` and `fill!`, in their order -/
def neighbours (point : Int × Int) : List (Int × Int) :=
  [(point.1 + 1, point.2), (point.1 - 1, point.2), (point.1, point.2 + 1), (point.1, point.2 - 1)]

def Layer.allTileEntries (s : Layer size) : List TileKey := s.persisted ∪ s.tiles.keys

/-- The queue of one component, whose members are marked when they enter it: what the queue has
held and what is marked in the end. -/
def collectComponent (entries : List TileKey) :
    Nat → List TileKey → List TileKey → List TileKey × List TileKey
  | 0, queue, visited => (queue, visited)
  | _ + 1, [], visited => ([], visited)
  | fuel + 1, current :: queue, visited =>
    let fresh := (neighbours current).filter fun key => decide (key ∈ entries ∧ key ∉ visited)
    let (component, visited) := collectComponent entries fuel (queue ++ fresh) (visited ++ fresh)
    (current :: component, visited)

/-- The component of every entry that no earlier component has reached. -/
def collectComponents (entries : List TileKey) :
    List TileKey → List TileKey → List (TileKey × List TileKey)
  | [], _ => []
  | entry :: rest, visited =>
    if entry ∈ visited then collectComponents entries rest visited
    else
      let (component, visited) :=
        collectComponent entries (entries.length + 1) [entry] (visited ++ [entry])
      (entry, component) :: collectComponents entries rest visited

structure Component where
  minTx : Int
  maxTx : Int
  minTy : Int
  maxTy : Int

/-- The smallest and largest coordinates of the members, starting from those of the entry -/
def Component.ofTiles (entry : TileKey) (tiles : List TileKey) : Component :=
  tiles.foldl (fun c key =>
    ⟨min c.minTx key.1, max c.maxTx key.1, min c.minTy key.2, max c.maxTy key.2⟩)
    ⟨entry.1, entry.1, entry.2, entry.2⟩

def Component.bounds (size : Nat) (c : Component) : Bounds :=
  ⟨c.minTx * size, (c.maxTx + 1) * size - 1, c.minTy * size, (c.maxTy + 1) * size - 1⟩

def Component.precedes (size : Nat) (left right : Component) : Bool :=
  if (left.bounds size).area ≠ (right.bounds size).area then
    decide ((left.bounds size).area < (right.bounds size).area)
  else if left.minTy ≠ right.minTy then decide (left.minTy < right.minTy)
  else if left.minTx ≠ right.minTx then decide (left.minTx < right.minTx)
  else if left.maxTy ≠ right.maxTy then decide (left.maxTy < right.maxTy)
  else decide (left.maxTx < right.maxTx)

def Layer.tileComponentBounds (s : Layer size) (seed : Int × Int) : Option Bounds :=
  let entries := s.allTileEntries
  let components := (collectComponents entries entries []).map fun component =>
    Component.ofTiles component.1 component.2
  ((tableSort (Component.precedes size) components).map (Component.bounds size)).find? fun bounds =>
    bounds.contains seed.1 seed.2

section Fill
variable [NeZero size]

/-- Whether the search goes on from a point. -/
def fillable (extents : Bounds) (seedRgba : Rgba) (tolerance : Int) (point : Int × Int) :
    Op (Layer size) Bool :=
  if extents.contains point.1 point.2 = true then do
    let rgba ← getPixelRgba point
    pure (rgba.withinTolerance seedRgba tolerance)
  else pure false

/-- The search is given a round for each of the four neighbours of each point. -/
def fill (seed : Int × Int) (fillRgba : Rgba) (tolerance : Int) : Op (Layer size) (Patch size) := do
  let seedRgba ← getPixelRgba seed
  let s ← get
  match s.tileComponentBounds seed with
  | none => pure ⟨[], [], false, none⟩
  | some extents =>
    if seedRgba = fillRgba ∨ extents.contains seed.1 seed.2 = false then
      pure ⟨[], [], false, none⟩
    else do
      let found ← flood neighbours (fillable extents seedRgba tolerance)
        (4 * extents.points.length + 2) [seed] [] []
      match found with
      | none => raise "the search has not ended"
      | some fillPoints =>
        patched (fillPoints.map (tileKey size)).dedup none
          (forEach fillPoints fun point => setPixel point fillRgba)

end Fill

end Space2.Drawing
