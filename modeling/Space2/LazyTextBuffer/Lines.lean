import Space2.LazyTextBuffer.Navigation

/-!
# Lines and columns of a lazy text buffer

A line is found by scanning for newlines from the nearest anchor, a column by
stepping over codepoints from a byte. Both scans read the text in chunks; the
fuel of a loop is the size of what it scans.
-/
namespace Space2.LazyTextBuffer

structure LineAnchor where
  line : Nat
  byte : Nat
  deriving DecidableEq, Repr

def logicalScanChunkBytes : Nat := 4096

def nearestLineAnchor (anchors : List LineAnchor) (line : Nat) : Option LineAnchor :=
  anchors.head?.map fun first =>
    anchors.foldl (fun best anchor =>
      if anchor.line ≤ line ∧ anchor.line ≥ best.line then anchor else best) first

section Scans
variable (view : View)

def readLogicalChunk (pos : Nat) : Except String Bytes := do
  let chunk ← view.read pos (min logicalScanChunkBytes (view.size - pos))
  if chunk.length > 0 ∧ pos + chunk.length < view.size then
    let prefixEnd := completeUtf8PrefixLength chunk
    if prefixEnd > 0 then pure (chunk.take prefixEnd) else pure chunk
  else pure chunk

/-- How far the codepoint at the front of `text` reaches, or that more bytes are needed. -/
def logicalCodepointStep (text : Bytes) (globalByte : Nat) : Nat × Bool :=
  let expectedLen := text.head?.bind utf8SequenceLength
  match completeUtf8SequenceLengthAt text with
  | some completeLen => (completeLen, false)
  | none =>
    if validTruncatedUtf8Prefix text expectedLen then
      if globalByte + text.length < view.size then (0, true) else (text.length, false)
    else (1, false)

def lineColumnByteStep (text : Bytes) (globalByte : Nat) : Except String (Nat × Bool) :=
  if text.head? = some 10 ∨ text.head? = some 13 then pure (0, true)
  else do
    let (advance, wait) := logicalCodepointStep view text globalByte
    if wait then
      let extended ← view.read globalByte (min 4 (view.size - globalByte))
      let (advance, wait) := logicalCodepointStep view extended globalByte
      if wait then pure (0, true) else pure (advance, false)
    else pure (advance, false)

structure LineScan where
  line : Nat
  lineStart : Nat
  extraConsumedBytes : Nat
  lineAnchors : List LineAnchor

def LineScan.newline (state : LineScan) (lineStart : Nat) : LineScan :=
  { state with
    line := state.line + 1
    lineStart := lineStart
    lineAnchors := state.lineAnchors ++ [⟨state.line + 1, lineStart⟩] }

-- `i` counts the chunk's bytes from 1, as in the source.
def advanceLineSummaryScanChunk (targetLine pos : Nat) :
    Nat → LineScan → Bytes → Except String LineScan
  | _, state, [] => pure state
  | i, state, b :: rest =>
    if state.line < targetLine then
      if b = 10 then
        advanceLineSummaryScanChunk targetLine pos (i + 1) (state.newline (pos + i)) rest
      else if b = 13 then
        match rest with
        | [] => do
          if (← byteAt view (pos + i)) = some 10 then
            pure { state.newline (pos + i + 1) with extraConsumedBytes := 1 }
          else pure (state.newline (pos + i))
        | next :: rest =>
          if next = 10 then
            advanceLineSummaryScanChunk targetLine pos (i + 2) (state.newline (pos + i + 1)) rest
          else
            advanceLineSummaryScanChunk targetLine pos (i + 1) (state.newline (pos + i))
              (next :: rest)
      else advanceLineSummaryScanChunk targetLine pos (i + 1) state rest
    else pure state

def scanLineSummaryFrom (targetLine : Nat) : Nat → LineScan → Nat → Except String LineScan
  | fuel, state, pos =>
    if state.line < targetLine ∧ pos < view.size then
      match fuel with
      | 0 => throw outOfFuel
      | fuel + 1 => do
        let chunk ← readLogicalChunk view pos
        if chunk.length = 0 then pure state
        else
          let state ← advanceLineSummaryScanChunk view targetLine pos 1
            { state with extraConsumedBytes := 0 } chunk
          scanLineSummaryFrom targetLine fuel state (pos + chunk.length + state.extraConsumedBytes)
    else pure state

/-- Where a line starts, and the anchors with those met on the way. -/
def getLineSummary (anchors : List LineAnchor) (line : Int) :
    Except String (Nat × List LineAnchor) :=
  let targetLine := (max 0 line).toNat
  if view.size = 0 then pure (0, anchors)
  else
    match nearestLineAnchor anchors targetLine with
    | none => throw "attempt to index a nil value (local 'anchor')"
    | some anchor => do
      let state ← scanLineSummaryFrom view targetLine view.size
        ⟨anchor.line, anchor.byte, 0, anchors⟩ anchor.byte
      pure (state.lineStart, state.lineAnchors)

/-- Steps over the codepoints of a chunk until the column or a newline is reached. The result
is the position, the column and whether the scan stopped. -/
def scanColumnChunk (target : Nat) :
    Nat → Bytes → Nat → Nat → Nat → Except String (Nat × Nat × Bool)
  | fuel, text, globalByte, pos, column =>
    if text ≠ [] ∧ column < target then
      match fuel with
      | 0 => throw outOfFuel
      | fuel + 1 => do
        let (advance, stop) ← lineColumnByteStep view text globalByte
        if stop then pure (globalByte, column, true)
        else
          scanColumnChunk target fuel (text.drop advance) (globalByte + advance)
            (min view.size (globalByte + advance)) (column + 1)
    else pure (pos, column, false)

def byteForLineColumnFrom (target : Nat) : Nat → Nat → Nat → Except String (Nat × Nat)
  | fuel, pos, column =>
    if pos < view.size ∧ column < target then
      match fuel with
      | 0 => throw outOfFuel
      | fuel + 1 => do
        let chunk ← readLogicalChunk view pos
        if chunk.length = 0 then pure (view.size, column)
        else
          let (pos, column, done) ← scanColumnChunk view target chunk.length chunk pos pos column
          if done then pure (pos, column) else byteForLineColumnFrom target fuel pos column
    else pure (pos, column)

def byteForLineColumn (startByte : Nat) (column : Int) : Except String (Nat × Nat) := do
  let targetColumn := (max 0 column).toNat
  let (pos, column) ← byteForLineColumnFrom view targetColumn view.size startByte 0
  pure ((clamp pos 0 view.size).toNat, column)

end Scans

section Plain
variable {text : Bytes}

theorem read_ne_nil {pos count : Nat} (hpos : pos < text.length) (hcount : 0 < count) :
    (text.drop pos).take count ≠ [] := by
  rw [← List.length_pos_iff, List.length_take, List.length_drop]
  omega

theorem readLogicalChunk_of {pos : Nat} (h : pos < text.length) :
    ∃ chunk, readLogicalChunk (View.of text) pos = .ok chunk ∧ 0 < chunk.length ∧
      pos + chunk.length ≤ text.length := by
  obtain ⟨chunk, hchunk⟩ : ∃ chunk, chunk =
      (text.drop pos).take (min logicalScanChunkBytes (text.length - pos)) := ⟨_, rfl⟩
  have hlength : 0 < chunk.length ∧ pos + chunk.length ≤ text.length := by
    rw [hchunk, List.length_take, List.length_drop]
    unfold logicalScanChunkBytes
    omega
  have hview : (View.of text).read pos (min logicalScanChunkBytes ((View.of text).size - pos)) =
      .ok chunk := congrArg Except.ok hchunk.symm
  simp only [readLogicalChunk, hview, bind, Except.bind]
  split_ifs with htrim hprefix
  · refine ⟨_, rfl, ?_, ?_⟩ <;> rw [List.length_take] <;> omega
  · exact ⟨chunk, rfl, hlength⟩
  · exact ⟨chunk, rfl, hlength⟩

theorem logicalCodepointStep_advances {view : View} {chunk : Bytes} {globalByte advance : Nat}
    (hchunk : chunk ≠ [])
    (h : logicalCodepointStep view chunk globalByte = (advance, false)) : 0 < advance := by
  have hlength := List.length_pos_iff.mpr hchunk
  unfold logicalCodepointStep at h
  split at h
  · next hcomplete =>
    obtain ⟨rfl, -⟩ := Prod.mk.inj h
    exact completeUtf8SequenceLengthAt_pos hcomplete
  · dsimp only at h
    split_ifs at h
    · simp only [Prod.mk.injEq, Bool.true_eq_false, and_false] at h
    · simp only [Prod.mk.injEq, and_true] at h
      omega
    · simp only [Prod.mk.injEq, and_true] at h
      omega

theorem lineColumnByteStep_of {chunk : Bytes} {globalByte : Nat} (hchunk : chunk ≠ [])
    (hglobal : globalByte < text.length) :
    ∃ advance stop, lineColumnByteStep (View.of text) chunk globalByte = .ok (advance, stop) ∧
      (stop = false → 0 < advance) := by
  have hextended : (text.drop globalByte).take (min 4 (text.length - globalByte)) ≠ [] :=
    read_ne_nil hglobal (by omega)
  have hview : (View.of text).read globalByte (min 4 ((View.of text).size - globalByte)) =
      .ok ((text.drop globalByte).take (min 4 (text.length - globalByte))) := rfl
  unfold lineColumnByteStep
  split_ifs with hnewline
  · exact ⟨0, true, rfl, by simp⟩
  · rcases hstep : logicalCodepointStep (View.of text) chunk globalByte with ⟨advance, _ | _⟩
    · exact ⟨advance, false, rfl, fun _ => logicalCodepointStep_advances hchunk hstep⟩
    · simp only [if_true, hview, bind, Except.bind]
      rcases hagain : logicalCodepointStep (View.of text)
        ((text.drop globalByte).take (min 4 (text.length - globalByte))) globalByte with
        ⟨advance, _ | _⟩
      · exact ⟨advance, false, rfl, fun _ => logicalCodepointStep_advances hextended hagain⟩
      · exact ⟨0, true, rfl, by simp⟩

/-- A scan of a chunk ends inside the text, and past its start unless it had nothing to do. -/
theorem scanColumnChunk_of (target fuel : Nat) (chunk : Bytes) (globalByte pos column : Nat)
    (hfuel : chunk.length ≤ fuel) (hchunk : chunk = [] ∨ globalByte + chunk.length ≤ text.length)
    (hpos : pos = min text.length globalByte) :
    ∃ pos' column' done, scanColumnChunk (View.of text) target fuel chunk globalByte pos column =
        .ok (pos', column', done) ∧ pos ≤ pos' ∧ pos' ≤ text.length ∧
      (chunk ≠ [] → column < target → done = false → pos < pos') := by
  have hsize : (View.of text).size = text.length := rfl
  induction fuel generalizing chunk globalByte pos column with
  | zero =>
    have hnil : chunk = [] := List.length_eq_zero_iff.mp (by omega)
    rw [scanColumnChunk, if_neg (by simp [hnil])]
    exact ⟨pos, column, false, rfl, Nat.le_refl pos, by omega, by simp [hnil]⟩
  | succ fuel ih =>
    rw [scanColumnChunk]
    split_ifs with hmore
    · have hpositive := List.length_pos_iff.mpr hmore.1
      have hinside : globalByte + chunk.length ≤ text.length := hchunk.resolve_left hmore.1
      obtain ⟨advance, stop, hstep, hadvance⟩ :=
        @lineColumnByteStep_of text chunk globalByte hmore.1 (by omega)
      simp only [hstep, bind, Except.bind]
      cases stop with
      | true => exact ⟨globalByte, column, true, rfl, by omega, by omega, by simp⟩
      | false =>
        have hforward := hadvance rfl
        have hrest : chunk.drop advance = [] ∨
            globalByte + advance + (chunk.drop advance).length ≤ text.length := by
          rw [List.length_drop]
          by_cases hall : chunk.length ≤ advance
          · exact .inl (List.drop_of_length_le hall)
          · exact .inr (by omega)
        obtain ⟨pos', column', done, hscan, hle, hlt, -⟩ := ih (chunk.drop advance)
          (globalByte + advance) (min text.length (globalByte + advance)) (column + 1)
          (by rw [List.length_drop]; omega) hrest rfl
        exact ⟨pos', column', done, hscan, by omega, hlt, fun _ _ _ => by omega⟩
    · exact ⟨pos, column, false, rfl, Nat.le_refl pos, by omega,
        fun hne hcolumn => absurd ⟨hne, hcolumn⟩ hmore⟩

theorem byteForLineColumnFrom_of (target fuel pos column : Nat)
    (hfuel : text.length ≤ pos + fuel) :
    ∃ result, byteForLineColumnFrom (View.of text) target fuel pos column = .ok result := by
  have hsize : (View.of text).size = text.length := rfl
  induction fuel generalizing pos column with
  | zero =>
    rw [byteForLineColumnFrom, if_neg (by omega)]
    exact ⟨_, rfl⟩
  | succ fuel ih =>
    rw [byteForLineColumnFrom]
    split_ifs with hmore
    · obtain ⟨chunk, hchunk, hlength, hinside⟩ := readLogicalChunk_of (hsize ▸ hmore.1)
      obtain ⟨pos', column', done, hscan, hle, hlt, hprogress⟩ :=
        scanColumnChunk_of target chunk.length chunk pos pos column (Nat.le_refl chunk.length)
          (.inr hinside) (by omega)
      have hcontinue : ¬ chunk.length = 0 := by omega
      simp only [hchunk, hscan, bind, Except.bind, if_neg hcontinue]
      cases done with
      | true => exact ⟨(pos', column'), rfl⟩
      | false =>
        have hforward := hprogress (List.length_pos_iff.mp hlength) hmore.2 rfl
        exact ih pos' column' (by omega)
    · exact ⟨_, rfl⟩

theorem byteForLineColumn_of (startByte : Nat) (column : Int) :
    ∃ pos column', byteForLineColumn (View.of text) startByte column = .ok (pos, column') ∧
      pos ≤ text.length := by
  have hsize : (View.of text).size = text.length := rfl
  obtain ⟨⟨pos, column'⟩, hscan⟩ := @byteForLineColumnFrom_of text (max 0 column).toNat
    text.length startByte 0 (by omega)
  refine ⟨(clamp pos 0 text.length).toNat, column', ?_, ?_⟩
  · simp only [byteForLineColumn, hsize, hscan, bind, Except.bind]
    rfl
  · unfold clamp
    omega

theorem newline_lineAnchors (state : LineScan) (lineStart : Nat) :
    state.lineAnchors <+: (state.newline lineStart).lineAnchors :=
  List.prefix_append _ _

/-- Scanning for a line only adds anchors. -/
theorem advanceLineSummaryScanChunk_of (targetLine pos i : Nat) (state : LineScan)
    (chunk : Bytes) :
    ∃ state', advanceLineSummaryScanChunk (View.of text) targetLine pos i state chunk =
      .ok state' ∧ state.lineAnchors <+: state'.lineAnchors := by
  fun_induction advanceLineSummaryScanChunk (View.of text) targetLine pos i state chunk with
  | case1 i state => exact ⟨state, rfl, List.prefix_refl _⟩
  | case2 i state rest hline ih =>
    obtain ⟨state', hstate', hgrows⟩ := ih
    exact ⟨state', hstate', (newline_lineAnchors state _).trans hgrows⟩
  | case3 i state hline =>
    rw [byteAt_of]
    simp only [bind, Except.bind]
    split_ifs
    · exact ⟨_, rfl, newline_lineAnchors state _⟩
    · exact ⟨_, rfl, newline_lineAnchors state _⟩
  | case4 i state hline rest hreturn ih =>
    obtain ⟨state', hstate', hgrows⟩ := ih
    exact ⟨state', hstate', (newline_lineAnchors state _).trans hgrows⟩
  | case5 i state hline next rest hnext hreturn ih =>
    obtain ⟨state', hstate', hgrows⟩ := ih
    exact ⟨state', hstate', (newline_lineAnchors state _).trans hgrows⟩
  | case6 i state b rest hline hnewline hreturn ih => exact ih
  | case7 i state b rest hline => exact ⟨state, rfl, List.prefix_refl _⟩

theorem scanLineSummaryFrom_of (targetLine fuel pos : Nat) (state : LineScan)
    (hfuel : text.length ≤ pos + fuel) :
    ∃ state', scanLineSummaryFrom (View.of text) targetLine fuel state pos = .ok state' ∧
      state.lineAnchors <+: state'.lineAnchors := by
  have hsize : (View.of text).size = text.length := rfl
  induction fuel generalizing pos state with
  | zero =>
    rw [scanLineSummaryFrom, if_neg (by omega)]
    exact ⟨state, rfl, List.prefix_refl _⟩
  | succ fuel ih =>
    rw [scanLineSummaryFrom]
    split_ifs with hmore
    · obtain ⟨chunk, hchunk, hlength, -⟩ := readLogicalChunk_of (hsize ▸ hmore.2)
      obtain ⟨passed, hscan, hgrows⟩ := @advanceLineSummaryScanChunk_of text targetLine pos 1
        { state with extraConsumedBytes := 0 } chunk
      have hcontinue : ¬ chunk.length = 0 := by omega
      simp only [hchunk, hscan, bind, Except.bind, if_neg hcontinue]
      obtain ⟨state', hstate', hmore'⟩ :=
        ih (pos + chunk.length + passed.extraConsumedBytes) passed (by omega)
      exact ⟨state', hstate', hgrows.trans hmore'⟩
    · exact ⟨state, rfl, List.prefix_refl _⟩

theorem getLineSummary_of {anchors : List LineAnchor} (hanchors : anchors ≠ []) (line : Int) :
    ∃ start anchors', getLineSummary (View.of text) anchors line = .ok (start, anchors') ∧
      anchors' ≠ [] := by
  have hsize : (View.of text).size = text.length := rfl
  unfold getLineSummary
  dsimp only
  split_ifs
  · exact ⟨0, anchors, rfl, hanchors⟩
  · obtain ⟨first, rest, rfl⟩ := List.exists_cons_of_ne_nil hanchors
    simp only [nearestLineAnchor, List.head?_cons, Option.map_some]
    generalize List.foldl _ first (first :: rest) = anchor
    obtain ⟨state, hscan, hgrows⟩ := @scanLineSummaryFrom_of text (max 0 line).toNat text.length
      anchor.byte ⟨anchor.line, anchor.byte, 0, first :: rest⟩ (by omega)
    simp only [hsize, hscan, bind, Except.bind]
    exact ⟨_, _, rfl, hgrows.ne_nil (List.cons_ne_nil first rest)⟩

end Plain

end Space2.LazyTextBuffer
