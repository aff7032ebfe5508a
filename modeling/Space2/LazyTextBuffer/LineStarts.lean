import Space2.LazyTextBuffer.Places

/-!
# Scans for line starts

Two scans look for the start of a line from an anchor, one by chunks of its own
size and one within the budget of a viewport. Both only store true line starts.
-/
namespace Space2.LazyTextBuffer

/-! ## The scan of a viewport -/

structure LineFind where
  currentLine : Nat
  targetByte : Option Nat
  consumedEndByte : Nat
  lineAnchors : List LineAnchor

def LineFind.newline (line lineByte : Nat) (state : LineFind) : LineFind where
  currentLine := state.currentLine + 1
  targetByte := if state.currentLine + 1 = line then some lineByte else state.targetByte
  consumedEndByte := max state.consumedEndByte lineByte
  lineAnchors := state.lineAnchors ++ [⟨state.currentLine + 1, lineByte⟩]

section Scans
variable (view : View)

-- A newline inside the chunk ends before the chunk does, so the maximum is only needed for `\r\n`.
def findLinesChunk (line chunkStart : Nat) : Nat → LineFind → Bytes → Except String LineFind
  | _, state, [] => pure state
  | i, state, b :: rest =>
    if state.currentLine < line then
      if b = 10 then findLinesChunk line chunkStart (i + 1) (state.newline line (chunkStart + i)) rest
      else if b = 13 then
        match rest with
        | [] => do
          if (← byteAt view (chunkStart + i)) = some 10 then
            pure (state.newline line (chunkStart + i + 1))
          else pure (state.newline line (chunkStart + i))
        | next :: rest =>
          if next = 10 then
            findLinesChunk line chunkStart (i + 2) (state.newline line (chunkStart + i + 1)) rest
          else findLinesChunk line chunkStart (i + 1) (state.newline line (chunkStart + i)) (next :: rest)
      else findLinesChunk line chunkStart (i + 1) state rest
    else pure state

structure LineFound where
  pos : Nat
  known : Bool
  lineAnchors : List LineAnchor

def findLineStartFrom (chunkBytes budget line : Nat) :
    Nat → Nat → Nat → Nat → List LineAnchor → Except String LineFound
  | fuel, currentLine, pos, scannedBytes, anchors =>
    if currentLine < line ∧ pos < view.size ∧ scannedBytes < budget then
      match fuel with
      | 0 => throw outOfFuel
      | fuel + 1 => do
        let chunk ← view.read pos (min chunkBytes (budget - scannedBytes))
        let state ← findLinesChunk view line pos 1 ⟨currentLine, none, pos + chunk.length, anchors⟩ chunk
        findLineStartFrom chunkBytes budget line fuel state.currentLine
          (state.targetByte.getD state.consumedEndByte)
          (if chunk.length = 0 then budget else scannedBytes + (state.consumedEndByte - pos))
          state.lineAnchors
    else pure ⟨pos, decide (currentLine = line), anchors⟩

def findLineStart (chunkBytes budget : Nat) (anchors : List LineAnchor) (line : Int) :
    Except String LineFound :=
  if line ≤ 0 then pure ⟨0, true, anchors⟩
  else
    match nearestLineAnchor anchors line.toNat with
    | none => throw "attempt to index a nil value (local 'anchor')"
    | some anchor =>
      findLineStartFrom view chunkBytes budget line.toNat view.size anchor.line anchor.byte 0 anchors

end Scans

/-! ## True line starts -/

variable {text : Bytes}

def TrueAnchor (text : Bytes) (anchor : LineAnchor) : Prop :=
  lineStart text anchor.line = some anchor.byte

/-- The first anchor is the first line, and every anchor is the start of its line. -/
structure TrueAnchors (text : Bytes) (anchors : List LineAnchor) : Prop where
  first : anchors.head? = some ⟨0, 0⟩
  all : ∀ anchor ∈ anchors, TrueAnchor text anchor

theorem TrueAnchors.firstLine (text : Bytes) : TrueAnchors text firstLine :=
  ⟨rfl, List.forall_mem_singleton.mpr rfl⟩

theorem TrueAnchors.concat {anchors : List LineAnchor} (h : TrueAnchors text anchors)
    {anchor : LineAnchor} (hanchor : TrueAnchor text anchor) : TrueAnchors text (anchors ++ [anchor]) := by
  refine ⟨?_, fun other hother => ?_⟩
  · rw [List.head?_append, h.first]
    rfl
  · rcases List.mem_append.mp hother with hold | hnew
    · exact h.all other hold
    · rwa [List.mem_singleton.mp hnew]

theorem TrueAnchors.ne_nil {anchors : List LineAnchor} (h : TrueAnchors text anchors) : anchors ≠ [] := by
  rintro rfl
  cases h.first

/-- A byte on the line that starts at `start`, with only plain bytes before it. -/
structure OnLine (text : Bytes) (line start pos : Nat) : Prop where
  starts : lineStart text line = some start
  le : start ≤ pos
  plain : Plain text start pos

theorem OnLine.start {line start : Nat} (h : lineStart text line = some start) : OnLine text line start start :=
  ⟨h, le_rfl, fun _ hfrom hto => absurd hto (Nat.not_lt.mpr hfrom)⟩

theorem OnLine.next {line start pos : Nat} (h : OnLine text line start pos) {b : UInt8}
    (hb : text[pos]? = some b) (hplain : isNewline b = false) : OnLine text line start (pos + 1) := by
  refine ⟨h.starts, h.le.trans (Nat.le_succ pos), fun i hfrom hto => ?_⟩
  rcases Nat.lt_succ_iff_lt_or_eq.mp hto with hbefore | rfl
  · exact h.plain i hfrom hbefore
  · exact ⟨b, hb, hplain⟩

/-- After the newline the next line starts. -/
theorem OnLine.newline {line start pos : Nat} (h : OnLine text line start pos)
    (hnewline : newlineLength (text.drop pos) ≠ 0) :
    lineStart text (line + 1) = some (pos + newlineLength (text.drop pos)) := by
  have hsame : start + (pos - start) = pos := Nat.add_sub_cancel' h.le
  have hcontent : lineContent (text.drop start) = pos - start :=
    lineContent_eq (by rw [hsame]; exact h.plain) (Or.inr (by rwa [hsame]))
  rw [lineStart, h.starts, Option.bind_some, hcontent, hsame, if_neg hnewline]

/-- A line that goes on to the end is the last. -/
theorem OnLine.last {line start pos : Nat} (h : OnLine text line start pos) (hend : text.length ≤ pos) :
    lineStart text (line + 1) = none := by
  have hsame : start + (pos - start) = pos := Nat.add_sub_cancel' h.le
  have hcontent : lineContent (text.drop start) = pos - start :=
    lineContent_eq (by rw [hsame]; exact h.plain) (Or.inl (by rwa [hsame]))
  have hnone : newlineLength (text.drop pos) = 0 := by
    rw [List.drop_of_length_le hend]
    rfl
  rw [lineStart, h.starts, Option.bind_some, hcontent, hsame, if_pos hnone]

/-- A part of the text that starts at a byte. -/
def PartAt (text : Bytes) (pos : Nat) (part : Bytes) : Prop := part <+: text.drop pos

theorem PartAt.cons {pos : Nat} {b : UInt8} {rest : Bytes} (h : PartAt text pos (b :: rest)) :
    text[pos]? = some b ∧ PartAt text (pos + 1) rest := by
  obtain ⟨tail, hdrop, hrest⟩ := List.cons_prefix_iff.mp h
  refine ⟨?_, ?_⟩
  · have hhead := List.head?_drop (l := text) (i := pos)
    rw [← hhead, hdrop]
    rfl
  · rw [PartAt, ← List.drop_drop, hdrop]
    exact hrest

theorem PartAt.le_length {pos : Nat} {part : Bytes} (h : PartAt text pos part) (hpos : pos ≤ text.length) :
    pos + part.length ≤ text.length := by
  have hle := h.length_le
  rw [List.length_drop] at hle
  omega

theorem partAt_take (text : Bytes) (pos count : Nat) : PartAt text pos ((text.drop pos).take count) :=
  List.take_prefix count _

/-- A carriage return at the end of a part, by the byte after it. -/
theorem newlineLength_cr {pos : Nat} (h : text[pos]? = some 13) :
    newlineLength (text.drop pos) = if text[pos + 1]? = some 10 then 2 else 1 := by
  obtain ⟨hlt, hcr⟩ := List.getElem?_eq_some_iff.mp h
  rw [List.drop_eq_getElem_cons hlt, newlineLength, hcr, if_neg (by decide), if_pos rfl, List.head?_drop]

theorem newlineLength_lf {pos : Nat} (h : text[pos]? = some 10) : newlineLength (text.drop pos) = 1 := by
  obtain ⟨hlt, hlf⟩ := List.getElem?_eq_some_iff.mp h
  rw [List.drop_eq_getElem_cons hlt, newlineLength, hlf, if_pos rfl]

theorem OnLine.lf {line start pos : Nat} (h : OnLine text line start pos) (hlf : text[pos]? = some 10) :
    lineStart text (line + 1) = some (pos + 1) := by
  have hone := newlineLength_lf hlf
  rw [h.newline (by omega), hone]

theorem OnLine.crlf {line start pos : Nat} (h : OnLine text line start pos) (hcr : text[pos]? = some 13)
    (hlf : text[pos + 1]? = some 10) : lineStart text (line + 1) = some (pos + 2) := by
  have htwo := newlineLength_cr hcr
  rw [if_pos hlf] at htwo
  rw [h.newline (by omega), htwo]

theorem OnLine.cr {line start pos : Nat} (h : OnLine text line start pos) (hcr : text[pos]? = some 13)
    (hlf : ¬ text[pos + 1]? = some 10) : lineStart text (line + 1) = some (pos + 1) := by
  have hone := newlineLength_cr hcr
  rw [if_neg hlf] at hone
  rw [h.newline (by omega), hone]

/-! ## The scan of a line summary -/

/-- What a scan that goes on from `pos` knows. -/
structure Scanned (text : Bytes) (targetLine : Nat) (state : LineScan) (pos : Nat) : Prop where
  anchors : TrueAnchors text state.lineAnchors
  starts : lineStart text state.line = some state.lineStart
  onLine : state.line < targetLine → OnLine text state.line state.lineStart pos
  le : state.line ≤ targetLine

theorem Scanned.newline {targetLine : Nat} {state : LineScan} {pos next : Nat}
    (h : Scanned text targetLine state pos) (hline : state.line < targetLine)
    (hnext : lineStart text (state.line + 1) = some next) :
    Scanned text targetLine (state.newline next) next :=
  ⟨h.anchors.concat hnext, hnext, fun _ => OnLine.start hnext, hline⟩

theorem Scanned.extra {targetLine : Nat} {state : LineScan} {pos : Nat}
    (h : Scanned text targetLine state pos) (extra : Nat) :
    Scanned text targetLine { state with extraConsumedBytes := extra } pos :=
  ⟨h.anchors, h.starts, h.onLine, h.le⟩

theorem Scanned.next {targetLine : Nat} {state : LineScan} {pos : Nat} (h : Scanned text targetLine state pos)
    {b : UInt8} (hb : text[pos]? = some b) (hplain : isNewline b = false) :
    Scanned text targetLine state (pos + 1) :=
  ⟨h.anchors, h.starts, fun hline => (h.onLine hline).next hb hplain, h.le⟩

theorem Scanned.done {targetLine : Nat} {state : LineScan} {pos : Nat} (h : Scanned text targetLine state pos)
    (hline : ¬ state.line < targetLine) (other : Nat) : Scanned text targetLine state other :=
  ⟨h.anchors, h.starts, fun hmore => absurd hmore hline, h.le⟩

-- `here` is the byte of the chunk's rest.
theorem advanceLineSummaryScanChunk_spec {targetLine pos i : Nat} {state : LineScan} {chunk : Bytes}
    {here : Nat} (hhere : here + 1 = pos + i) (hpart : PartAt text here chunk)
    (hextra : state.extraConsumedBytes = 0) (h : Scanned text targetLine state here) :
    ∃ state', advanceLineSummaryScanChunk (View.of text) targetLine pos i state chunk = .ok state' ∧
      Scanned text targetLine state' (here + chunk.length + state'.extraConsumedBytes) := by
  fun_induction advanceLineSummaryScanChunk (View.of text) targetLine pos i state chunk generalizing here with
  | case1 i state =>
    refine ⟨state, rfl, ?_⟩
    rw [hextra]
    exact h
  | case2 i state rest hline ih =>
    obtain ⟨hlf, hrest⟩ := hpart.cons
    have hnext := h.newline hline ((h.onLine hline).lf hlf)
    rw [hhere] at hnext hrest
    obtain ⟨state', hrun, hscanned⟩ := @ih (pos + i) rfl hrest hextra hnext
    rw [← hhere, Nat.add_assoc here, Nat.add_comm 1] at hscanned
    exact ⟨state', hrun, hscanned⟩
  | case3 i state hline =>
    obtain ⟨hcr, -⟩ := hpart.cons
    rw [byteAt_of, ← hhere]
    simp only [bind, Except.bind]
    split_ifs with hlf
    · refine ⟨_, rfl, ?_⟩
      exact (h.newline hline ((h.onLine hline).crlf hcr hlf)).extra 1
    · refine ⟨_, rfl, ?_⟩
      change Scanned text targetLine _ (here + 1 + state.extraConsumedBytes)
      rw [hextra]
      exact h.newline hline ((h.onLine hline).cr hcr hlf)
  | case4 i state hline rest hreturn ih =>
    obtain ⟨hcr, hrest⟩ := hpart.cons
    obtain ⟨hlf, hrest⟩ := hrest.cons
    have hnext := h.newline hline ((h.onLine hline).crlf hcr hlf)
    rw [show here + 2 = pos + i + 1 by omega] at hnext
    rw [show here + 1 + 1 = pos + i + 1 by omega] at hrest
    obtain ⟨state', hrun, hscanned⟩ := @ih (pos + i + 1) rfl hrest hextra hnext
    rw [show pos + i + 1 + rest.length = here + (rest.length + 1 + 1) by omega] at hscanned
    exact ⟨state', hrun, hscanned⟩
  | case5 i state hline next rest hnext hreturn ih =>
    obtain ⟨hcr, hrest⟩ := hpart.cons
    have hlf : ¬ text[here + 1]? = some 10 := by
      rw [hrest.cons.1]
      exact fun heq => hnext (Option.some.inj heq)
    have hscan := h.newline hline ((h.onLine hline).cr hcr hlf)
    rw [hhere] at hscan hrest
    obtain ⟨state', hrun, hscanned⟩ := @ih (pos + i) rfl hrest hextra hscan
    rw [← hhere, Nat.add_assoc here, Nat.add_comm 1] at hscanned
    exact ⟨state', hrun, hscanned⟩
  | case6 i state b rest hline hlf hcr ih =>
    obtain ⟨hb, hrest⟩ := hpart.cons
    have hplain : isNewline b = false := by simp [isNewline, hlf, hcr]
    have hscan := h.next hb hplain
    rw [hhere] at hscan hrest
    obtain ⟨state', hrun, hscanned⟩ := @ih (pos + i) rfl hrest hextra hscan
    rw [← hhere, Nat.add_assoc here, Nat.add_comm 1] at hscanned
    exact ⟨state', hrun, hscanned⟩
  | case7 i state b rest hline =>
    exact ⟨state, rfl, h.done hline _⟩

/-- The scan ends on the line it looks for, or on the last line. -/
theorem scanLineSummaryFrom_spec {targetLine : Nat} {state : LineScan} {fuel pos : Nat}
    (hfuel : text.length ≤ pos + fuel) (h : Scanned text targetLine state pos) :
    ∃ state', scanLineSummaryFrom (View.of text) targetLine fuel state pos = .ok state' ∧
      TrueAnchors text state'.lineAnchors ∧ lineStart text state'.line = some state'.lineStart ∧
      state'.line ≤ targetLine ∧
      (state'.line < targetLine → lineStart text (state'.line + 1) = none) := by
  have hsize : (View.of text).size = text.length := rfl
  have hends : ∀ pos state, Scanned text targetLine state pos →
      ¬ (state.line < targetLine ∧ pos < text.length) →
      state.line < targetLine → lineStart text (state.line + 1) = none := by
    intro pos state hscanned hstop hline
    exact (hscanned.onLine hline).last (by omega)
  induction fuel generalizing state pos with
  | zero =>
    have hstop : ¬ (state.line < targetLine ∧ pos < text.length) := by omega
    rw [scanLineSummaryFrom, hsize, if_neg hstop]
    exact ⟨state, rfl, h.anchors, h.starts, h.le, hends pos state h hstop⟩
  | succ fuel ih =>
    rw [scanLineSummaryFrom, hsize]
    by_cases hmore : state.line < targetLine ∧ pos < text.length
    · rw [if_pos hmore]
      obtain ⟨count, hchunk, hcount, hinside, -⟩ := readLogicalChunk_spec hmore.2
      have hlength : ((text.drop pos).take count).length = count := by
        rw [List.length_take, List.length_drop]
        omega
      obtain ⟨passed, hscan, hpassed⟩ := @advanceLineSummaryScanChunk_spec text targetLine pos 1
        { state with extraConsumedBytes := 0 } _ pos rfl (partAt_take text pos count) rfl (h.extra 0)
      rw [hlength] at hpassed
      obtain ⟨state', hrest, hspec⟩ := ih (by omega) hpassed
      refine ⟨state', ?_, hspec⟩
      have hcontinue : ¬ count = 0 := by omega
      simp only [hchunk, hscan, bind, Except.bind, hlength, if_neg hcontinue]
      exact hrest
    · rw [if_neg hmore]
      exact ⟨state, rfl, h.anchors, h.starts, h.le, hends pos state h hmore⟩

theorem nearestLineAnchor_spec {anchors : List LineAnchor} (h : TrueAnchors text anchors) (line : Nat) :
    ∃ anchor ∈ anchors, nearestLineAnchor anchors line = some anchor ∧ anchor.line ≤ line := by
  have hfold : ∀ (l : List LineAnchor) (best : LineAnchor), best.line ≤ line →
      l.foldl (fun best anchor => if anchor.line ≤ line ∧ anchor.line ≥ best.line then anchor else best) best ∈
        best :: l ∧ (l.foldl (fun best anchor =>
          if anchor.line ≤ line ∧ anchor.line ≥ best.line then anchor else best) best).line ≤ line := by
    intro l
    induction l with
    | nil => exact fun best hbest => ⟨List.mem_singleton_self best, hbest⟩
    | cons anchor l ih =>
      intro best hbest
      rw [List.foldl_cons]
      by_cases htaken : anchor.line ≤ line ∧ anchor.line ≥ best.line
      · rw [if_pos htaken]
        obtain ⟨hmem, hle⟩ := ih anchor htaken.1
        exact ⟨List.mem_cons_of_mem best hmem, hle⟩
      · rw [if_neg htaken]
        obtain ⟨hmem, hle⟩ := ih best hbest
        refine ⟨?_, hle⟩
        rcases List.mem_cons.mp hmem with hsame | hlater
        · rw [hsame]
          exact List.mem_cons_self
        · exact List.mem_cons_of_mem best (List.mem_cons_of_mem anchor hlater)
  obtain ⟨hmem, hle⟩ := hfold anchors ⟨0, 0⟩ (Nat.zero_le line)
  refine ⟨_, ?_, by rw [nearestLineAnchor, h.first]; rfl, hle⟩
  rcases List.mem_cons.mp hmem with hsame | hlater
  · rw [hsame]
    exact List.mem_of_mem_head? h.first
  · exact hlater

theorem Scanned.anchor {anchors : List LineAnchor} (h : TrueAnchors text anchors) {anchor : LineAnchor}
    (hmem : anchor ∈ anchors) {targetLine : Nat} (hle : anchor.line ≤ targetLine) :
    Scanned text targetLine ⟨anchor.line, anchor.byte, 0, anchors⟩ anchor.byte :=
  ⟨h, h.all anchor hmem, fun _ => OnLine.start (h.all anchor hmem), hle⟩

/-- A line summary starts where its line does, and only stores true anchors. -/
theorem getLineSummary_spec {anchors : List LineAnchor} (h : TrueAnchors text anchors) (line : Int) :
    ∃ start anchors', getLineSummary (View.of text) anchors line = .ok (start, anchors') ∧
      TrueAnchors text anchors' := by
  have hsize : (View.of text).size = text.length := rfl
  unfold getLineSummary
  dsimp only
  rw [hsize]
  split_ifs
  · exact ⟨0, anchors, rfl, h⟩
  · obtain ⟨anchor, hmem, hnearest, hle⟩ := nearestLineAnchor_spec h (max 0 line).toNat
    have hfuel : text.length ≤ anchor.byte + text.length := Nat.le_add_left _ _
    obtain ⟨state, hscan, hanchors, -⟩ := scanLineSummaryFrom_spec hfuel (Scanned.anchor h hmem hle)
    rw [hnearest]
    simp only [hscan, bind, Except.bind]
    exact ⟨_, _, rfl, hanchors⟩

/-! ## The scan of a viewport stores true anchors -/

/-- What the chunks of a viewport know: the line so far, and a target once it is reached. -/
structure Found (text : Bytes) (line : Nat) (state : LineFind) (pos : Nat) : Prop where
  anchors : TrueAnchors text state.lineAnchors
  le : state.currentLine ≤ line
  onLine : state.currentLine < line → state.targetByte = none ∧ ∃ start, OnLine text state.currentLine start pos
  target : state.currentLine = line → ∃ byte, state.targetByte = some byte ∧ lineStart text line = some byte

theorem Found.newline {line : Nat} {state : LineFind} {pos next : Nat} (h : Found text line state pos)
    (hline : state.currentLine < line) (hnext : lineStart text (state.currentLine + 1) = some next) :
    Found text line (state.newline line next) next := by
  refine ⟨h.anchors.concat hnext, hline, fun hmore => ⟨?_, next, OnLine.start hnext⟩, fun hlast => ⟨next, ?_, ?_⟩⟩
  · change state.currentLine + 1 < line at hmore
    exact (if_neg hmore.ne).trans (h.onLine hline).1
  · exact if_pos hlast
  · change state.currentLine + 1 = line at hlast
    rw [← hlast, hnext]

end Space2.LazyTextBuffer
