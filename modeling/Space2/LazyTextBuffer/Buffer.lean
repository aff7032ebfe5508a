import Space2.LazyTextBuffer.Anchors
import Space2.LazyTextBuffer.Pieces

/-!
# The lazy text buffer

The text is composed of pieces of the file and of the text typed since it was
last saved. A range is read piece by piece, a piece of the file in chunks, and
each read of the file may return less than was asked for.
-/
namespace Space2.LazyTextBuffer
open Piece

inductive Store where
  | original
  | add
  deriving DecidableEq, Repr

structure Source where
  content : Bytes
  size : Nat

def maxByteRangeBytes : Nat := 262144

def Source.readRange (source : Source) (offset maxBytes : Nat) : Except String Bytes :=
  if maxBytes = 0 then throw "fs.read_byte_range: max-bytes must be positive"
  else pure ((source.content.drop offset).take (min maxBytes maxByteRangeBytes))

structure Selection where
  anchorByte : Nat
  activeByte : Nat
  deriving DecidableEq, Repr

namespace Selection

def startByte (selection : Selection) : Nat := min selection.anchorByte selection.activeByte

def endByte (selection : Selection) : Nat := max selection.anchorByte selection.activeByte

end Selection

structure Buffer where
  source : Source
  chunkBytes : Nat
  pieces : List (Piece Store)
  addBuffer : Bytes
  size : Nat
  cursorByte : Nat
  selection : Option Selection
  dirty : Bool
  lineAnchors : List LineAnchor

def readOriginalFrom (source : Source) (chunkBytes : Nat) :
    Nat → Nat → Nat → Except String Bytes
  | _, _, 0 => pure []
  | 0, _, _ + 1 => throw outOfFuel
  | fuel + 1, offset, remaining + 1 => do
    let bytes ← source.readRange offset (min chunkBytes (remaining + 1))
    if bytes.length = 0 then
      throw "LazyTextBuffer read-composed-range: source returned no bytes before requested range was satisfied"
    else
      let rest ← readOriginalFrom source chunkBytes fuel (offset + bytes.length)
        (remaining + 1 - bytes.length)
      pure (bytes ++ rest)

def readOriginalPieceText (piece : Piece Store) (source : Source) (chunkBytes : Nat) :
    Except String Bytes :=
  readOriginalFrom source chunkBytes piece.bytes piece.offset piece.bytes

namespace Buffer

def pieceText (buffer : Buffer) (piece : Piece Store) : Except String Bytes :=
  match piece.source with
  | .add => pure ((buffer.addBuffer.drop piece.offset).take piece.bytes)
  | .original => readOriginalPieceText piece buffer.source buffer.chunkBytes

def readComposedRange (buffer : Buffer) (startByte maxBytes : Nat) : Except String Bytes := do
  let finish := min (startByte + maxBytes) buffer.size
  let parts ← (piecesBetween buffer.pieces startByte finish).mapM buffer.pieceText
  pure parts.flatten

def view (buffer : Buffer) : View where
  size := buffer.size
  read := buffer.readComposedRange

def stores (buffer : Buffer) : Store → Bytes
  | .original => buffer.source.content
  | .add => buffer.addBuffer

/-- The text composed from the pieces. -/
def text (buffer : Buffer) : Bytes := spelled buffer.stores buffer.pieces

/-- What every state of a buffer should satisfy. -/
structure Sound (buffer : Buffer) : Prop where
  pieces : ∀ piece ∈ buffer.pieces, Fits buffer.stores piece
  size : buffer.size = buffer.text.length
  cursor : buffer.cursorByte ≤ buffer.size
  selection : ∀ selection ∈ buffer.selection, selection.endByte ≤ buffer.size
  anchors : buffer.lineAnchors ≠ []
  chunk : 1 ≤ buffer.chunkBytes

end Buffer

theorem readOriginalFrom_eq {source : Source} {chunkBytes : Nat} (hchunk : 1 ≤ chunkBytes)
    (fuel offset remaining : Nat) (hfuel : remaining ≤ fuel)
    (hinside : offset + remaining ≤ source.content.length) :
    readOriginalFrom source chunkBytes fuel offset remaining =
      .ok ((source.content.drop offset).take remaining) := by
  induction fuel generalizing offset remaining with
  | zero =>
    obtain rfl : remaining = 0 := by omega
    rfl
  | succ fuel ih =>
    cases remaining with
    | zero => rfl
    | succ remaining =>
      obtain ⟨count, hcount⟩ : ∃ count, count =
        min (min chunkBytes (remaining + 1)) maxByteRangeBytes := ⟨_, rfl⟩
      have hpositive : 0 < count ∧ count ≤ remaining + 1 := by
        rw [hcount]
        unfold maxByteRangeBytes
        omega
      have hread : source.readRange offset (min chunkBytes (remaining + 1)) =
          .ok ((source.content.drop offset).take count) := by
        rw [hcount]
        exact if_neg (by omega)
      have hlength : ((source.content.drop offset).take count).length = count := by
        rw [List.length_take, List.length_drop]
        omega
      have hcontinue : ¬ count = 0 := by omega
      have hrest := ih (offset + count) (remaining + 1 - count) (by omega) (by omega)
      have hjoin : (source.content.drop offset).take count ++
          (source.content.drop (offset + count)).take (remaining + 1 - count) =
            (source.content.drop offset).take (remaining + 1) := by
        rw [← List.drop_drop, ← List.take_add]
        congr 1
        omega
      simp only [readOriginalFrom, hread, bind, Except.bind, hlength, if_neg hcontinue, hrest,
        pure, Except.pure, hjoin]

namespace Buffer
variable {buffer : Buffer}

theorem pieceText_eq (hchunk : 1 ≤ buffer.chunkBytes) {piece : Piece Store}
    (h : piece.Within buffer.stores) :
    buffer.pieceText piece = .ok (piece.spell buffer.stores) := by
  obtain ⟨source, offset, bytes⟩ := piece
  cases source with
  | original => exact readOriginalFrom_eq hchunk bytes offset bytes (Nat.le_refl bytes) h
  | add => rfl

theorem mapM_pieceText (hchunk : 1 ≤ buffer.chunkBytes) {pieces : List (Piece Store)}
    (h : ∀ piece ∈ pieces, Fits buffer.stores piece) :
    pieces.mapM buffer.pieceText = .ok (pieces.map (spell buffer.stores)) := by
  induction pieces with
  | nil => rfl
  | cons piece rest ih =>
    rw [List.mapM_cons, pieceText_eq hchunk (h piece List.mem_cons_self).within,
      ih fun other hmem => h other (List.mem_cons_of_mem piece hmem)]
    rfl

theorem Sound.within (h : buffer.Sound) : ∀ piece ∈ buffer.pieces, piece.Within buffer.stores :=
  fun piece hmem => (h.pieces piece hmem).within

/-- A range read from the pieces is that range of the text. -/
theorem Sound.readComposedRange_eq (h : buffer.Sound) (startByte maxBytes : Nat) :
    buffer.readComposedRange startByte maxBytes =
      .ok ((buffer.text.drop startByte).take maxBytes) := by
  have hpieces : (piecesBetween buffer.pieces startByte
      (min (startByte + maxBytes) buffer.size)).mapM buffer.pieceText = .ok _ :=
    mapM_pieceText h.chunk (fits_piecesBetween h.within)
  have hflatten : ((piecesBetween buffer.pieces startByte
      (min (startByte + maxBytes) buffer.size)).map (spell buffer.stores)).flatten =
        (buffer.text.drop startByte).take maxBytes := by
    rw [← List.flatMap_def]
    change spelled _ _ = _
    rw [spelled_piecesBetween h.within, h.size, List.drop_take]
    change List.take (min (startByte + maxBytes) buffer.text.length - startByte)
      (buffer.text.drop startByte) = _
    rw [List.take_eq_take_iff, List.length_drop]
    omega
  simp only [readComposedRange, hpieces, bind, Except.bind, hflatten]
  rfl

theorem Sound.view_eq (h : buffer.Sound) : buffer.view = View.of buffer.text := by
  rw [view, View.of]
  congr 1
  · exact h.size
  · funext startByte maxBytes
    exact h.readComposedRange_eq startByte maxBytes

theorem Sound.totalBytes_eq (h : buffer.Sound) : totalBytes buffer.pieces = buffer.size := by
  rw [h.size, text, length_spelled h.within, totalBytes]

end Buffer
end Space2.LazyTextBuffer

/-!
# Editing a lazy text buffer

The operations as the buffer carries them out: an edit splits the pieces, a caret
move reads the composed text, and a save writes the pieces out and starts again
from the one piece the file then is.
-/
namespace Space2.LazyTextBuffer

def validUtf8 (text : Bytes) : Bool := (ByteArray.mk text.toArray).validateUTF8

def firstLine : List LineAnchor := [⟨0, 0⟩]

def horizontalBoundary (view : View) (delta : Int) (current : Nat) : Except String Nat :=
  if delta < 0 then previousCodepointBoundary view current
  else nextCodepointBoundary view current

/-- The caret after `steps` codepoints in the direction of `delta`, and whether it moved. -/
def horizontalFrom (view : View) (delta : Int) : Nat → Nat × Bool → Except String (Nat × Bool)
  | 0, caret => pure caret
  | steps + 1, (current, moved) => do
    let next ← horizontalBoundary view delta current
    if next ≠ current then horizontalFrom view delta steps (next, true)
    else horizontalFrom view delta steps (current, moved)

namespace Buffer

/-- The buffer of a freshly opened file. -/
def opened (content : Bytes) (chunkBytes : Nat) : Buffer where
  source := ⟨content, content.length⟩
  chunkBytes := chunkBytes
  pieces := [⟨.original, 0, content.length⟩]
  addBuffer := []
  size := content.length
  cursorByte := 0
  selection := none
  dirty := false
  lineAnchors := firstLine

def insertText (buffer : Buffer) (text : Bytes) : Except String (Buffer × Bool) :=
  if validUtf8 text = false then throw "LazyTextBuffer insert-text requires valid UTF-8"
  else
    let insertOffset := buffer.addBuffer.length
    let parts := splitPiecesAt buffer.pieces buffer.cursorByte
    let pieces := normalizePieces (parts.1 ++ ⟨.add, insertOffset, text.length⟩ :: parts.2)
    pure ({ buffer with
      addBuffer := buffer.addBuffer ++ text
      pieces := pieces
      size := totalBytes pieces
      cursorByte := buffer.cursorByte + text.length
      selection := none
      dirty := true
      lineAnchors := firstLine }, true)

def deleteRange (buffer : Buffer) (startByte endByte : Nat) : Buffer × Bool :=
  let start := (clamp startByte 0 buffer.size).toNat
  let finish := (clamp endByte start buffer.size).toNat
  if finish > start then
    let before := (splitPiecesAt buffer.pieces start).1
    let after := (splitPiecesAt buffer.pieces finish).2
    let pieces := normalizePieces (before ++ after)
    ({ buffer with
      pieces := pieces
      size := totalBytes pieces
      cursorByte := start
      dirty := true
      lineAnchors := firstLine }, true)
  else (buffer, false)

def deleteSelection (buffer : Buffer) : Buffer × Bool :=
  match buffer.selection with
  | some selection =>
    { buffer with selection := none }.deleteRange selection.startByte selection.endByte
  | none => (buffer, false)

def deleteBeforeCursor (buffer : Buffer) : Except String (Buffer × Bool) :=
  if buffer.cursorByte = 0 then pure (buffer, false)
  else do
    let start ← previousCodepointBoundary buffer.view buffer.cursorByte
    pure (buffer.deleteRange start buffer.cursorByte)

def deleteAtCursor (buffer : Buffer) : Except String (Buffer × Bool) :=
  if buffer.cursorByte ≥ buffer.size then pure (buffer, false)
  else do
    let finish ← nextCodepointBoundary buffer.view buffer.cursorByte
    pure (buffer.deleteRange buffer.cursorByte finish)

def moveCaretHorizontal (buffer : Buffer) (delta : Int) : Except String (Buffer × Bool) := do
  let (cursor, moved) ← horizontalFrom buffer.view delta delta.natAbs (buffer.cursorByte, false)
  pure ({ buffer with cursorByte := cursor }, moved)

def moveCaretToByte (buffer : Buffer) (byte : Int) : Buffer × Bool :=
  ({ buffer with cursorByte := (clamp byte 0 buffer.size).toNat }, true)

def moveCaretToLineColumn (buffer : Buffer) (line column : Int) :
    Except String (Buffer × Bool) := do
  let (startByte, anchors) ← getLineSummary buffer.view buffer.lineAnchors line
  let (cursor, _) ← byteForLineColumn buffer.view startByte column
  pure ({ buffer with cursorByte := cursor, lineAnchors := anchors }, true)

def moveToLineColumnFromAnchor (buffer : Buffer) (anchor : Anchor) (targetLine targetColumn : Int)
    (options : AnchorOptions) : Except String (Buffer × AnchorResult) := do
  let result ← lineColumnFromAnchor buffer.view buffer.chunkBytes anchor targetLine targetColumn
    options
  match result with
  | .bounded position clamped =>
    pure ({ buffer with cursorByte := position.byte }, .bounded position clamped)
  | .unbounded reason position => pure (buffer, .unbounded reason position)

def setSelection (buffer : Buffer) (anchorByte activeByte : Int) : Buffer × Bool :=
  let anchor := (clamp anchorByte 0 buffer.size).toNat
  let active := (clamp activeByte 0 buffer.size).toNat
  ({ buffer with selection := some ⟨anchor, active⟩ }, true)

def clearSelection (buffer : Buffer) : Buffer × Bool := ({ buffer with selection := none }, true)

inductive Segment where
  | text (bytes : Bytes)
  | source (offset bytes : Nat)

def saveSegment (buffer : Buffer) (piece : Piece Store) : Except String Segment :=
  match piece.source with
  | .add => do pure (.text (← buffer.pieceText piece))
  | .original => pure (.source piece.offset piece.bytes)

def buildSaveSegments (buffer : Buffer) : Except String (List Segment) :=
  buffer.pieces.mapM buffer.saveSegment

def writeSegment (content : Bytes) : Segment → Except String Bytes
  | .text bytes => pure bytes
  | .source offset bytes =>
    if offset > content.length ∨ bytes > content.length - offset then
      throw "fs.atomic_replace_if_current: source segment exceeds file size"
    else pure ((content.drop offset).take bytes)

/-- The buffer after its file was replaced by `content`; the token holds the file's new size. -/
def collapseAfterSave (buffer : Buffer) (content : Bytes) : Buffer :=
  { buffer with
    source := ⟨content, content.length⟩
    pieces := [⟨.original, 0, content.length⟩]
    addBuffer := []
    size := content.length
    dirty := false
    lineAnchors := firstLine }

/-- A save that finds the file as the buffer knows it. -/
def save (buffer : Buffer) : Except String Buffer := do
  let segments ← buffer.buildSaveSegments
  let written ← segments.mapM (writeSegment buffer.source.content)
  pure (buffer.collapseAfterSave written.flatten)

end Buffer

end Space2.LazyTextBuffer
