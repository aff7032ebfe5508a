import Space2.LazyTextBuffer.Buffer
import Mathlib.Tactic.Ext

/-!
# The plain editor

A byte string with a caret and a selection, edited by splices. An operation on
the pieces of a buffer is the same operation on the text they spell.
-/
namespace Space2.LazyTextBuffer
open Piece

/-- The plain editor: a byte string with a caret and a selection. -/
@[ext]
structure Editor where
  text : Bytes
  chunkBytes : Nat
  cursorByte : Nat
  selection : Option Selection
  lineAnchors : List LineAnchor

namespace Editor

def opened (content : Bytes) (chunkBytes : Nat) : Editor where
  text := content
  chunkBytes := chunkBytes
  cursorByte := 0
  selection := none
  lineAnchors := firstLine

def view (editor : Editor) : View := View.of editor.text

def splice (editor : Editor) (start finish : Nat) (inserted : Bytes) : Editor :=
  { editor with
    text := editor.text.take start ++ inserted ++ editor.text.drop finish
    cursorByte := start + inserted.length
    lineAnchors := firstLine }

def deleteRange (editor : Editor) (start finish : Nat) : Editor :=
  if start < finish then editor.splice start finish [] else editor

end Editor

inductive Operation where
  | insertText (text : Bytes)
  | deleteSelection
  | deleteBeforeCursor
  | deleteAtCursor
  | moveCaretHorizontal (delta : Int)
  | moveCaretToByte (byte : Int)
  | moveCaretToLineColumn (line column : Int)
  | moveToLineColumnFromAnchor (anchor : Anchor) (targetLine targetColumn : Int)
      (options : AnchorOptions)
  | setSelection (anchorByte activeByte : Int)
  | clearSelection
  | save

def Buffer.perform (buffer : Buffer) : Operation → Except String Buffer
  | .insertText text => Prod.fst <$> buffer.insertText text
  | .deleteSelection => pure buffer.deleteSelection.1
  | .deleteBeforeCursor => Prod.fst <$> buffer.deleteBeforeCursor
  | .deleteAtCursor => Prod.fst <$> buffer.deleteAtCursor
  | .moveCaretHorizontal delta => Prod.fst <$> buffer.moveCaretHorizontal delta
  | .moveCaretToByte byte => pure (buffer.moveCaretToByte byte).1
  | .moveCaretToLineColumn line column => Prod.fst <$> buffer.moveCaretToLineColumn line column
  | .moveToLineColumnFromAnchor anchor targetLine targetColumn options =>
    Prod.fst <$> buffer.moveToLineColumnFromAnchor anchor targetLine targetColumn options
  | .setSelection anchorByte activeByte => pure (buffer.setSelection anchorByte activeByte).1
  | .clearSelection => pure buffer.clearSelection.1
  | .save => buffer.save

def Editor.perform (editor : Editor) : Operation → Except String Editor
  | .insertText text =>
    if validUtf8 text = false then throw "LazyTextBuffer insert-text requires valid UTF-8"
    else pure { editor.splice editor.cursorByte editor.cursorByte text with selection := none }
  | .deleteSelection =>
    match editor.selection with
    | some selection =>
      pure ({ editor with selection := none }.deleteRange selection.startByte selection.endByte)
    | none => pure editor
  | .deleteBeforeCursor => do
    let start ← previousCodepointBoundary editor.view editor.cursorByte
    pure (editor.deleteRange start editor.cursorByte)
  | .deleteAtCursor => do
    let finish ← nextCodepointBoundary editor.view editor.cursorByte
    pure (editor.deleteRange editor.cursorByte finish)
  | .moveCaretHorizontal delta => do
    let (cursor, _) ← horizontalFrom editor.view delta delta.natAbs (editor.cursorByte, false)
    pure { editor with cursorByte := cursor }
  | .moveCaretToByte byte =>
    pure { editor with cursorByte := (clamp byte 0 editor.text.length).toNat }
  | .moveCaretToLineColumn line column => do
    let (startByte, anchors) ← getLineSummary editor.view editor.lineAnchors line
    let (cursor, _) ← byteForLineColumn editor.view startByte column
    pure { editor with cursorByte := cursor, lineAnchors := anchors }
  | .moveToLineColumnFromAnchor anchor targetLine targetColumn options => do
    let result ← lineColumnFromAnchor editor.view editor.chunkBytes anchor targetLine targetColumn
      options
    match result with
    | .bounded position _ => pure { editor with cursorByte := position.byte }
    | .unbounded _ _ => pure editor
  | .setSelection anchorByte activeByte =>
    pure { editor with
      selection := some ⟨(clamp anchorByte 0 editor.text.length).toNat,
        (clamp activeByte 0 editor.text.length).toNat⟩ }
  | .clearSelection => pure { editor with selection := none }
  | .save => pure { editor with lineAnchors := firstLine }

namespace Buffer
variable {buffer : Buffer}

/-- The plain editor a buffer stands for. -/
def editor (buffer : Buffer) : Editor where
  text := buffer.text
  chunkBytes := buffer.chunkBytes
  cursorByte := buffer.cursorByte
  selection := buffer.selection
  lineAnchors := buffer.lineAnchors

theorem Sound.editor_view (h : buffer.Sound) : buffer.editor.view = buffer.view :=
  h.view_eq.symm

theorem Sound.insertText (h : buffer.Sound) {text : Bytes} (hvalid : validUtf8 text = true) :
    ∃ next, buffer.insertText text = .ok (next, true) ∧ next.Sound ∧
      next.editor = { buffer.editor.splice buffer.cursorByte buffer.cursorByte text
        with selection := none } := by
  have hextend : ∀ source, buffer.stores source <+:
      ({ buffer with addBuffer := buffer.addBuffer ++ text } : Buffer).stores source := by
    rintro (_ | _)
    · exact List.prefix_refl _
    · exact List.prefix_append buffer.addBuffer text
  have hpiece : (⟨.add, buffer.addBuffer.length, text.length⟩ : Piece Store).Within
      ({ buffer with addBuffer := buffer.addBuffer ++ text } : Buffer).stores :=
    Nat.le_of_eq List.length_append.symm
  have hspell : (⟨.add, buffer.addBuffer.length, text.length⟩ : Piece Store).spell
      ({ buffer with addBuffer := buffer.addBuffer ++ text } : Buffer).stores = text := by
    change ((buffer.addBuffer ++ text).drop buffer.addBuffer.length).take text.length = text
    rw [List.drop_left, List.take_length]
  obtain ⟨hwithin, hspelled⟩ := spelled_inserted h.within hextend hpiece buffer.cursorByte
  have hfits := fits_normalizePieces hwithin
  have hsize := length_spelled fun piece hmem => (hfits piece hmem).within
  have hcursor : buffer.cursorByte + text.length ≤ totalBytes (normalizePieces
      ((splitPiecesAt buffer.pieces buffer.cursorByte).1 ++
        ⟨.add, buffer.addBuffer.length, text.length⟩ ::
          (splitPiecesAt buffer.pieces buffer.cursorByte).2)) := by
    have hle := h.size ▸ h.cursor
    rw [totalBytes, ← hsize, spelled_normalizePieces, hspelled, hspell, List.length_append,
      List.length_append, List.length_take]
    change _ ≤ buffer.text.length at hle
    change _ ≤ min _ buffer.text.length + _ + _
    omega
  refine ⟨_, if_neg (by simp [hvalid]), ⟨hfits, hsize.symm, hcursor, by simp, by simp [firstLine],
    h.chunk⟩, ?_⟩
  refine Editor.ext ?_ rfl rfl rfl rfl
  change spelled _ (normalizePieces _) = _
  rw [spelled_normalizePieces]
  exact hspelled.trans (by rw [hspell]; rfl)

theorem deleteRange_nothing (buffer : Buffer) (byte : Nat) :
    buffer.deleteRange byte byte = (buffer, false) := by
  rw [Buffer.deleteRange]
  refine if_neg ?_
  unfold clamp
  omega

theorem Sound.deleteRange (h : buffer.Sound) {start finish : Nat} (hstart : start ≤ finish)
    (hfinish : finish ≤ buffer.size)
    (hselection : ∀ selection ∈ buffer.selection,
      selection.endByte + (finish - start) ≤ buffer.size) :
    (buffer.deleteRange start finish).1.Sound ∧
      (buffer.deleteRange start finish).1.editor = buffer.editor.deleteRange start finish := by
  have hclamp : (clamp start 0 buffer.size).toNat = start ∧
      (clamp finish start buffer.size).toNat = finish := by
    unfold clamp
    omega
  rw [Buffer.deleteRange, Editor.deleteRange, hclamp.1, hclamp.2]
  split_ifs with hmore
  · obtain ⟨hwithin, hspelled⟩ := spelled_deleted h.within start finish
    have hfits := fits_normalizePieces hwithin
    have hsize := length_spelled fun piece hmem => (hfits piece hmem).within
    have htotal : totalBytes (normalizePieces ((splitPiecesAt buffer.pieces start).1 ++
        (splitPiecesAt buffer.pieces finish).2)) = buffer.size - (finish - start) := by
      rw [totalBytes, ← hsize, spelled_normalizePieces, hspelled, List.length_append,
        List.length_take, List.length_drop, h.size]
      rw [h.size] at hfinish
      change min start buffer.text.length + (buffer.text.length - finish) = _
      omega
    constructor
    · refine ⟨hfits, hsize.symm, ?_, ?_, by simp [firstLine], h.chunk⟩
      · change start ≤ totalBytes _
        rw [htotal]
        omega
      · intro selection hmem
        have hbound := hselection selection hmem
        change _ ≤ totalBytes _
        rw [htotal]
        omega
    · refine Editor.ext ?_ rfl rfl rfl rfl
      change spelled _ (normalizePieces _) = _
      rw [spelled_normalizePieces, Editor.splice, List.append_nil]
      exact hspelled
  · exact ⟨h, rfl⟩

theorem saved {pieces : List (Piece Store)}
    (h : ∀ piece ∈ pieces, Fits buffer.stores piece) :
    ∃ segments, pieces.mapM buffer.saveSegment = .ok segments ∧
      segments.mapM (writeSegment buffer.source.content) =
        .ok (pieces.map (spell buffer.stores)) := by
  induction pieces with
  | nil => exact ⟨[], rfl, rfl⟩
  | cons piece rest ih =>
    obtain ⟨segments, hsegments, hwritten⟩ := ih fun other hmem =>
      h other (List.mem_cons_of_mem piece hmem)
    have hwithin := (h piece List.mem_cons_self).within
    obtain ⟨segment, hsegment, hwrite⟩ : ∃ segment, buffer.saveSegment piece = .ok segment ∧
        writeSegment buffer.source.content segment = .ok (piece.spell buffer.stores) := by
      obtain ⟨source, offset, bytes⟩ := piece
      cases source with
      | original =>
        refine ⟨.source offset bytes, rfl, if_neg ?_⟩
        change offset + bytes ≤ buffer.source.content.length at hwithin
        omega
      | add => exact ⟨.text ((buffer.addBuffer.drop offset).take bytes), rfl, rfl⟩
    refine ⟨segment :: segments, ?_, ?_⟩
    · rw [List.mapM_cons, hsegment, hsegments]
      rfl
    · rw [List.mapM_cons, hwrite, hwritten]
      rfl

theorem Sound.save (h : buffer.Sound) (hsize : 0 < buffer.size) :
    ∃ next, buffer.save = .ok next ∧ next.Sound ∧
      next.editor = { buffer.editor with lineAnchors := firstLine } := by
  obtain ⟨segments, hsegments, hwritten⟩ := saved h.pieces
  have htext : (buffer.pieces.map (spell buffer.stores)).flatten = buffer.text := by
    rw [← List.flatMap_def]
    rfl
  have hspell : (buffer.collapseAfterSave buffer.text).text = buffer.text := by
    simp [Buffer.text, collapseAfterSave, spell, stores]
  have hlength := h.size
  refine ⟨buffer.collapseAfterSave buffer.text, ?_, ⟨?_, ?_, ?_, ?_, by simp [collapseAfterSave,
    firstLine], h.chunk⟩, Editor.ext hspell rfl rfl rfl rfl⟩
  · simp only [Buffer.save, buildSaveSegments, hsegments, hwritten, bind, Except.bind, htext]
    rfl
  · intro piece hmem
    obtain rfl := List.mem_singleton.mp hmem
    exact ⟨by change 0 < buffer.text.length; omega, Nat.le_of_eq (Nat.zero_add _)⟩
  · rw [hspell]
    rfl
  · change buffer.cursorByte ≤ buffer.text.length
    exact hlength ▸ h.cursor
  · intro selection hmem
    change _ ≤ buffer.text.length
    exact hlength ▸ h.selection selection hmem

end Buffer

end Space2.LazyTextBuffer
