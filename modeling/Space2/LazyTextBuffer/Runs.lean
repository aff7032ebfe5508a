import Space2.LazyTextBuffer.Editor

/-!
# Editing sessions

A session is a run of operations on a freshly opened file. As long as a delete
leaves room for the selection and nothing empty is opened or saved, the buffer
stands for the plain editor after every operation, and only text that is not
UTF-8 is refused.
-/
namespace Space2.LazyTextBuffer

theorem horizontalBoundary_of {text : Bytes} (delta : Int) {current : Nat}
    (h : current ≤ text.length) :
    ∃ next, horizontalBoundary (View.of text) delta current = .ok next ∧ next ≤ text.length := by
  unfold horizontalBoundary
  split_ifs
  · obtain ⟨next, hnext, hle, -⟩ := @previousCodepointBoundary_of text current
    exact ⟨next, hnext, by omega⟩
  · obtain ⟨next, hnext, -, hle, -⟩ := nextCodepointBoundary_of h
    exact ⟨next, hnext, hle⟩

theorem horizontalFrom_of {text : Bytes} (delta : Int) (steps : Nat) {caret : Nat × Bool}
    (h : caret.1 ≤ text.length) :
    ∃ caret', horizontalFrom (View.of text) delta steps caret = .ok caret' ∧
      caret'.1 ≤ text.length := by
  induction steps generalizing caret with
  | zero => exact ⟨caret, rfl, h⟩
  | succ steps ih =>
    obtain ⟨current, moved⟩ := caret
    obtain ⟨next, hnext, hle⟩ := horizontalBoundary_of delta h
    simp only [horizontalFrom, hnext, bind, Except.bind]
    split_ifs
    · exact @ih (next, true) hle
    · exact @ih (current, moved) h

/-- What an operation must find so that the offsets it leaves alone stay inside the text. -/
def Allowed (buffer : Buffer) : Operation → Prop
  | .deleteBeforeCursor =>
    ∀ selection ∈ buffer.selection,
      match previousCodepointBoundary buffer.view buffer.cursorByte with
      | .ok start => selection.endByte + (buffer.cursorByte - start) ≤ buffer.size
      | .error _ => True
  | .deleteAtCursor =>
    ∀ selection ∈ buffer.selection,
      match nextCodepointBoundary buffer.view buffer.cursorByte with
      | .ok finish => selection.endByte + (finish - buffer.cursorByte) ≤ buffer.size
      | .error _ => True
  | .save => 0 < buffer.size
  | _ => True

/-- An operation that raises leaves the buffer as it was: text is checked before anything else. -/
def Buffer.after (buffer : Buffer) (operation : Operation) : Buffer :=
  match buffer.perform operation with
  | .ok next => next
  | .error _ => buffer

def Editor.after (editor : Editor) (operation : Operation) : Editor :=
  match editor.perform operation with
  | .ok next => next
  | .error _ => editor

def Operation.malformed : Operation → Prop
  | .insertText text => validUtf8 text = false
  | _ => False

namespace Buffer
variable {buffer : Buffer}

theorem Sound.moved (h : buffer.Sound) {cursor : Nat} (hcursor : cursor ≤ buffer.text.length) :
    ({ buffer with cursorByte := cursor } : Buffer).Sound :=
  ⟨h.pieces, h.size, h.size ▸ hcursor, h.selection, h.anchors, h.chunk⟩

theorem Sound.selecting (h : buffer.Sound) {selection : Option Selection}
    (hselection : ∀ selected ∈ selection, selected.endByte ≤ buffer.size) :
    ({ buffer with selection := selection } : Buffer).Sound :=
  ⟨h.pieces, h.size, h.cursor, hselection, h.anchors, h.chunk⟩

/-- The operation succeeds on the buffer as it does on the plain text. -/
def Carries (buffer : Buffer) (operation : Operation) : Prop :=
  ∃ next, buffer.perform operation = .ok next ∧
    buffer.editor.perform operation = .ok next.editor ∧ next.Sound

theorem Sound.carries_deleteSelection (h : buffer.Sound) : buffer.Carries .deleteSelection := by
  have hcleared : ({ buffer with selection := none } : Buffer).Sound := h.selecting (by simp)
  cases hselection : buffer.selection with
  | none =>
    refine ⟨buffer, ?_, ?_, h⟩
    · simp only [Buffer.perform, Buffer.deleteSelection, hselection]
      rfl
    · simp only [Editor.perform, Buffer.editor, hselection]
      rfl
  | some selection =>
    have hbounds : selection.startByte ≤ selection.endByte := by
      unfold Selection.startByte Selection.endByte
      omega
    obtain ⟨hsound, heditor⟩ := hcleared.deleteRange hbounds
      (h.selection selection hselection) (by simp)
    refine ⟨_, ?_, ?_, hsound⟩
    · simp only [Buffer.perform, Buffer.deleteSelection, hselection]
      rfl
    · rw [heditor]
      simp only [Editor.perform, Buffer.editor, hselection]
      rfl

theorem Sound.carries_deleteBeforeCursor (h : buffer.Sound)
    (hallowed : Allowed buffer .deleteBeforeCursor) : buffer.Carries .deleteBeforeCursor := by
  obtain ⟨start, hstart, hle, -⟩ := @previousCodepointBoundary_of buffer.text buffer.cursorByte
  have hroom : ∀ selection ∈ buffer.selection,
      selection.endByte + (buffer.cursorByte - start) ≤ buffer.size := by
    intro selection hselection
    have hfits := hallowed selection hselection
    rwa [h.view_eq, hstart] at hfits
  obtain ⟨hsound, heditor⟩ := h.deleteRange hle h.cursor hroom
  refine ⟨_, ?_, ?_, hsound⟩
  · simp only [Buffer.perform, Buffer.deleteBeforeCursor, h.view_eq, hstart]
    split_ifs with hzero
    · obtain rfl : start = buffer.cursorByte := by omega
      rw [deleteRange_nothing]
      rfl
    · rfl
  · rw [heditor]
    simp only [Editor.perform, Editor.view, Buffer.editor, hstart]
    rfl

theorem Sound.carries_deleteAtCursor (h : buffer.Sound)
    (hallowed : Allowed buffer .deleteAtCursor) : buffer.Carries .deleteAtCursor := by
  obtain ⟨finish, hfinish, hle, hinside, -⟩ := nextCodepointBoundary_of (h.size ▸ h.cursor)
  have hroom : ∀ selection ∈ buffer.selection,
      selection.endByte + (finish - buffer.cursorByte) ≤ buffer.size := by
    intro selection hselection
    have hfits := hallowed selection hselection
    rwa [h.view_eq, hfinish] at hfits
  obtain ⟨hsound, heditor⟩ := h.deleteRange hle (h.size ▸ hinside) hroom
  refine ⟨_, ?_, ?_, hsound⟩
  · simp only [Buffer.perform, Buffer.deleteAtCursor, h.view_eq, hfinish]
    split_ifs with hend
    · have hsize := h.size
      obtain rfl : finish = buffer.cursorByte := by omega
      rw [deleteRange_nothing]
      rfl
    · rfl
  · rw [heditor]
    simp only [Editor.perform, Editor.view, Buffer.editor, hfinish]
    rfl

theorem Sound.carries_moveCaretToLineColumn (h : buffer.Sound) (line column : Int) :
    buffer.Carries (.moveCaretToLineColumn line column) := by
  obtain ⟨start, anchors, hsummary, hanchors⟩ :=
    @getLineSummary_of buffer.text buffer.lineAnchors h.anchors line
  obtain ⟨cursor, column', hcolumn, hle⟩ := @byteForLineColumn_of buffer.text start column
  refine ⟨{ buffer with cursorByte := cursor, lineAnchors := anchors }, ?_, ?_,
    ⟨h.pieces, h.size, h.size ▸ hle, h.selection, hanchors, h.chunk⟩⟩
  · simp only [Buffer.perform, Buffer.moveCaretToLineColumn, h.view_eq, hsummary, hcolumn, bind,
      Except.bind]
    rfl
  · simp only [Editor.perform, Editor.view, Buffer.editor, hsummary, hcolumn, bind, Except.bind]
    rfl

theorem Sound.carries_moveToLineColumnFromAnchor (h : buffer.Sound) (anchor : Anchor)
    (targetLine targetColumn : Int) (options : AnchorOptions) :
    buffer.Carries (.moveToLineColumnFromAnchor anchor targetLine targetColumn options) := by
  obtain ⟨result, hresult, hinside⟩ := @lineColumnFromAnchor_of buffer.text buffer.chunkBytes
    anchor targetLine targetColumn options
  cases result with
  | bounded position clamped =>
    refine ⟨{ buffer with cursorByte := position.byte }, ?_, ?_, h.moved hinside⟩
    · simp only [Buffer.perform, Buffer.moveToLineColumnFromAnchor, h.view_eq, hresult, bind,
        Except.bind]
      rfl
    · simp only [Editor.perform, Editor.view, Buffer.editor, hresult, bind, Except.bind]
      rfl
  | unbounded reason position =>
    refine ⟨buffer, ?_, ?_, h⟩
    · simp only [Buffer.perform, Buffer.moveToLineColumnFromAnchor, h.view_eq, hresult, bind,
        Except.bind]
      rfl
    · simp only [Editor.perform, Editor.view, Buffer.editor, hresult, bind, Except.bind]
      rfl

/-- One operation: refused as malformed, or carried out as on the plain text. -/
theorem Sound.perform (h : buffer.Sound) {operation : Operation}
    (hallowed : Allowed buffer operation) :
    (operation.malformed ∧ ∃ message, buffer.perform operation = .error message ∧
      buffer.editor.perform operation = .error message) ∨ buffer.Carries operation := by
  have hsize := h.size
  cases operation with
  | insertText text =>
    cases hvalid : validUtf8 text with
    | false =>
      refine .inl ⟨hvalid, "LazyTextBuffer insert-text requires valid UTF-8", ?_, if_pos hvalid⟩
      simp only [Buffer.perform, Buffer.insertText, hvalid]
      rfl
    | true =>
      obtain ⟨next, hinsert, hsound, heditor⟩ := h.insertText hvalid
      refine .inr ⟨next, ?_, ?_, hsound⟩
      · rw [Buffer.perform, hinsert]
        rfl
      · rw [heditor, Editor.perform, if_neg (by simp [hvalid])]
        rfl
  | deleteSelection => exact .inr h.carries_deleteSelection
  | deleteBeforeCursor => exact .inr (h.carries_deleteBeforeCursor hallowed)
  | deleteAtCursor => exact .inr (h.carries_deleteAtCursor hallowed)
  | moveCaretHorizontal delta =>
    obtain ⟨⟨cursor, moved⟩, hmove, hle⟩ := @horizontalFrom_of buffer.text delta delta.natAbs
      (buffer.cursorByte, false) (hsize ▸ h.cursor)
    refine .inr ⟨{ buffer with cursorByte := cursor }, ?_, ?_, h.moved hle⟩
    · simp only [Buffer.perform, Buffer.moveCaretHorizontal, h.view_eq, hmove, bind, Except.bind]
      rfl
    · simp only [Editor.perform, Editor.view, Buffer.editor, hmove, bind, Except.bind]
      rfl
  | moveCaretToByte byte =>
    refine .inr ⟨{ buffer with cursorByte := (clamp byte 0 buffer.size).toNat }, rfl, ?_, ?_⟩
    · rw [hsize]
      rfl
    · refine h.moved ?_
      unfold clamp
      omega
  | moveCaretToLineColumn line column => exact .inr (h.carries_moveCaretToLineColumn line column)
  | moveToLineColumnFromAnchor anchor targetLine targetColumn options =>
    exact .inr (h.carries_moveToLineColumnFromAnchor anchor targetLine targetColumn options)
  | setSelection anchorByte activeByte =>
    refine .inr ⟨(buffer.setSelection anchorByte activeByte).1, rfl, ?_, h.selecting ?_⟩
    · simp only [Buffer.setSelection, hsize]
      rfl
    · intro selected hselected
      obtain rfl := Option.some.inj hselected
      unfold Selection.endByte clamp
      dsimp only
      omega
  | clearSelection => exact .inr ⟨_, rfl, rfl, h.selecting (by simp)⟩
  | save =>
    obtain ⟨next, hsave, hsound, heditor⟩ := h.save hallowed
    exact .inr ⟨next, hsave, congrArg Except.ok heditor.symm, hsound⟩

theorem Sound.after (h : buffer.Sound) {operation : Operation} (hallowed : Allowed buffer operation) :
    (buffer.after operation).Sound ∧
      (buffer.after operation).editor = buffer.editor.after operation := by
  unfold Buffer.after Editor.after
  rcases h.perform hallowed with ⟨-, message, hbuffer, heditor⟩ | ⟨next, hnext, heditor, hsound⟩
  · rw [hbuffer, heditor]
    exact ⟨h, rfl⟩
  · rw [hnext, heditor]
    exact ⟨hsound, rfl⟩

theorem opened_sound {content : Bytes} {chunkBytes : Nat} (hcontent : content ≠ [])
    (hchunk : 1 ≤ chunkBytes) : (opened content chunkBytes).Sound := by
  have hlength := List.length_pos_iff.mpr hcontent
  have htext : (opened content chunkBytes).text = content := by
    simp [Buffer.text, opened, Piece.spell, stores]
  refine ⟨?_, by rw [htext]; rfl, Nat.zero_le _, by simp [opened], by simp [opened, firstLine],
    hchunk⟩
  intro piece hmem
  obtain rfl := List.mem_singleton.mp hmem
  exact ⟨hlength, Nat.le_of_eq (Nat.zero_add _)⟩

theorem opened_editor (content : Bytes) (chunkBytes : Nat) :
    (opened content chunkBytes).editor = Editor.opened content chunkBytes := by
  have htext : (opened content chunkBytes).text = content := by
    simp [Buffer.text, opened, Piece.spell, stores]
  exact Editor.ext htext rfl rfl rfl rfl

end Buffer

def Buffer.session (buffer : Buffer) (operations : List Operation) : Buffer :=
  operations.foldl Buffer.after buffer

def Editor.session (editor : Editor) (operations : List Operation) : Editor :=
  operations.foldl Editor.after editor

/-- Every operation of a session finds what it must. -/
def AllowedSession : Buffer → List Operation → Prop
  | _, [] => True
  | buffer, operation :: rest =>
    Allowed buffer operation ∧ AllowedSession (buffer.after operation) rest

/-- The buffer is the plain editor it should be: its pieces spell the same text, the caret, the
selection and the size are right, every range reads as a slice, and an operation fails only on
text that is not UTF-8. -/
structure EditsAsString (content : Bytes) (chunkBytes : Nat) (operations : List Operation) :
    Prop where
  editor : ((Buffer.opened content chunkBytes).session operations).editor =
    (Editor.opened content chunkBytes).session operations
  sound : ((Buffer.opened content chunkBytes).session operations).Sound
  ranges : ∀ startByte maxBytes,
    ((Buffer.opened content chunkBytes).session operations).readComposedRange startByte maxBytes =
      .ok ((((Editor.opened content chunkBytes).session operations).text.drop startByte).take
        maxBytes)
  refused : ∀ operation,
    Allowed ((Buffer.opened content chunkBytes).session operations) operation →
    ¬ operation.malformed →
    ∃ next, ((Buffer.opened content chunkBytes).session operations).perform operation = .ok next

theorem session_sound {buffer : Buffer} (h : buffer.Sound) {operations : List Operation}
    (hallowed : AllowedSession buffer operations) :
    (buffer.session operations).Sound ∧
      (buffer.session operations).editor = buffer.editor.session operations := by
  induction operations generalizing buffer with
  | nil => exact ⟨h, rfl⟩
  | cons operation rest ih =>
    obtain ⟨hstep, hrest⟩ := hallowed
    obtain ⟨hsound, heditor⟩ := h.after hstep
    obtain ⟨hsession, hsame⟩ := ih hsound hrest
    refine ⟨hsession, hsame.trans ?_⟩
    rw [heditor]
    rfl

end Space2.LazyTextBuffer
