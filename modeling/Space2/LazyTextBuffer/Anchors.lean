import Space2.LazyTextBuffer.Lines

/-!
# Moves from a known position

A caller that knows the line and column of a byte moves from there without
scanning the text from a line anchor. A move that would be too long, or that
leaves the line without a position to start from, is not made.
-/
namespace Space2.LazyTextBuffer

/-- A position as a caller gives it. -/
structure Anchor where
  byte : Int
  line : Int
  column : Int

structure Position where
  byte : Nat
  line : Nat
  column : Nat
  deriving DecidableEq, Repr

inductive Unbounded where
  | anchorTooFar
  | missingLineAnchor
  deriving DecidableEq, Repr

inductive AnchorResult where
  | bounded (position : Position) (clamped : Bool)
  | unbounded (reason : Unbounded) (position : Position)
  deriving DecidableEq, Repr

structure AnchorOptions where
  maxCodepoints : Option Int
  /-- The anchor and whether it is at the end of its line. -/
  targetAnchor : Option (Anchor × Bool)
  lineAnchor : Option Anchor

section Moves
variable (view : View)

def normalizeAnchor (anchor : Anchor) : Position where
  byte := (clamp anchor.byte 0 view.size).toNat
  line := (max 0 anchor.line).toNat
  column := (max 0 anchor.column).toNat

def scanForwardFrom (chunkBytes target : Nat) :
    Nat → Nat → Nat → Except String (Nat × Nat × Bool)
  | fuel, pos, column =>
    if column < target then
      match fuel with
      | 0 => throw outOfFuel
      | fuel + 1 => do
        let remainingColumns := target - column
        let readBytes := min chunkBytes (min (remainingColumns * 4) (view.size - pos))
        let chunk ← view.read pos readBytes
        if chunk.length = 0 then pure (pos, column, true)
        else
          let (pos, column, done) ← scanColumnChunk view target chunk.length chunk pos pos column
          if done then pure (pos, column, true)
          else scanForwardFrom chunkBytes target fuel pos column
    else pure (pos, column, false)

def scanForwardLineColumnFromAnchor (chunkBytes : Nat) (anchor : Position) (target : Nat) :
    Except String AnchorResult := do
  let (pos, column, clamped) ←
    scanForwardFrom view chunkBytes target (view.size - anchor.byte + 1) anchor.byte anchor.column
  pure (.bounded ⟨pos, anchor.line, column⟩ clamped)

/-- One codepoint back for each column. -/
def scanBackwardFrom : Nat → Nat → Except String Nat
  | 0, pos => pure pos
  | columns + 1, pos => do scanBackwardFrom columns (← previousCodepointBoundary view pos)

def scanBackwardLineColumnFromAnchor (anchor : Position) (target : Nat) :
    Except String AnchorResult := do
  let pos ← scanBackwardFrom view (anchor.column - target) anchor.byte
  pure (.bounded ⟨pos, anchor.line, target⟩ false)

def scanLineColumnFromAnchor (chunkBytes : Nat) (anchor : Position)
    (targetColumn maxCodepoints : Int) : Except String AnchorResult :=
  let target := (max 0 targetColumn).toNat
  let maxSteps := max 0 maxCodepoints
  let delta : Int := target - anchor.column
  if delta.natAbs > maxSteps then pure (.unbounded .anchorTooFar anchor)
  else if delta = 0 then pure (.bounded anchor false)
  else if delta > 0 then scanForwardLineColumnFromAnchor view chunkBytes anchor target
  else scanBackwardLineColumnFromAnchor view anchor target

def lineColumnFromAnchor (chunkBytes : Nat) (anchor : Anchor) (targetLine targetColumn : Int)
    (options : AnchorOptions) : Except String AnchorResult :=
  let normalized := normalizeAnchor view anchor
  let maxCodepoints := options.maxCodepoints.getD (max 1 (2 * chunkBytes))
  let line := (max 0 targetLine).toNat
  if line = normalized.line then
    scanLineColumnFromAnchor view chunkBytes normalized targetColumn maxCodepoints
  else
    match options.targetAnchor with
    | some (targetAnchor, lineEnd) =>
      let targetNormalized := normalizeAnchor view targetAnchor
      if lineEnd ∧ targetColumn > targetNormalized.column then
        pure (.bounded targetNormalized true)
      else scanLineColumnFromAnchor view chunkBytes targetNormalized targetColumn maxCodepoints
    | none =>
      match options.lineAnchor with
      | some lineAnchor =>
        scanLineColumnFromAnchor view chunkBytes (normalizeAnchor view lineAnchor) targetColumn
          maxCodepoints
      | none => pure (.unbounded .missingLineAnchor normalized)

end Moves

def AnchorResult.Inside (size : Nat) : AnchorResult → Prop
  | .bounded position _ => position.byte ≤ size
  | .unbounded _ _ => True

section Plain
variable {text : Bytes} {chunkBytes : Nat}

theorem normalizeAnchor_inside (anchor : Anchor) :
    (normalizeAnchor (View.of text) anchor).byte ≤ text.length := by
  have hsize : (View.of text).size = text.length := rfl
  simp only [normalizeAnchor, hsize, clamp]
  omega

theorem scanForwardFrom_of (target fuel pos column : Nat)
    (hpos : pos ≤ text.length) (hfuel : text.length < pos + fuel) :
    ∃ pos' column' clamped, scanForwardFrom (View.of text) chunkBytes target fuel pos column =
      .ok (pos', column', clamped) ∧ pos' ≤ text.length := by
  have hsize : (View.of text).size = text.length := rfl
  induction fuel generalizing pos column with
  | zero => omega
  | succ fuel ih =>
    rw [scanForwardFrom]
    split_ifs with hcolumn
    · obtain ⟨chunk, hread⟩ : ∃ chunk, chunk = (text.drop pos).take
          (min chunkBytes (min ((target - column) * 4) (text.length - pos))) := ⟨_, rfl⟩
      have hview : (View.of text).read pos
          (min chunkBytes (min ((target - column) * 4) (text.length - pos))) = .ok chunk :=
        congrArg Except.ok hread.symm
      have hinside : pos + chunk.length ≤ text.length := by
        rw [hread, List.length_take, List.length_drop]
        omega
      simp only [hsize, hview, bind, Except.bind]
      split_ifs with hempty
      · exact ⟨pos, column, true, rfl, hpos⟩
      · obtain ⟨pos', column', done, hscan, hle, hlt, hprogress⟩ :=
          scanColumnChunk_of target chunk.length chunk pos pos column (Nat.le_refl chunk.length)
            (.inr hinside) (by omega)
        simp only [hscan]
        cases done with
        | true => exact ⟨pos', column', true, rfl, hlt⟩
        | false =>
          have hne : chunk ≠ [] := fun hnil => hempty (by rw [hnil]; rfl)
          have hforward := hprogress hne hcolumn rfl
          exact ih pos' column' hlt (by omega)
    · exact ⟨pos, column, false, rfl, hpos⟩

theorem scanBackwardFrom_of (columns pos : Nat) :
    ∃ pos', scanBackwardFrom (View.of text) columns pos = .ok pos' ∧ pos' ≤ pos := by
  induction columns generalizing pos with
  | zero => exact ⟨pos, rfl, Nat.le_refl pos⟩
  | succ columns ih =>
    obtain ⟨before, hbefore, hle, -⟩ := @previousCodepointBoundary_of text pos
    obtain ⟨pos', hpos', hle'⟩ := ih before
    exact ⟨pos', by simp only [scanBackwardFrom, hbefore, bind, Except.bind, hpos'], by omega⟩

theorem scanLineColumnFromAnchor_of {anchor : Position}
    (hanchor : anchor.byte ≤ text.length) (targetColumn maxCodepoints : Int) :
    ∃ result, scanLineColumnFromAnchor (View.of text) chunkBytes anchor targetColumn
      maxCodepoints = .ok result ∧ result.Inside text.length := by
  have hsize : (View.of text).size = text.length := rfl
  unfold scanLineColumnFromAnchor
  dsimp only
  split_ifs
  · exact ⟨_, rfl, trivial⟩
  · exact ⟨_, rfl, hanchor⟩
  · obtain ⟨pos, column, clamped, hscan, hle⟩ := @scanForwardFrom_of text chunkBytes
      (max 0 targetColumn).toNat (text.length - anchor.byte + 1) anchor.byte anchor.column
      hanchor (by omega)
    refine ⟨.bounded ⟨pos, anchor.line, column⟩ clamped, ?_, hle⟩
    simp only [scanForwardLineColumnFromAnchor, hsize, hscan, bind, Except.bind]
    rfl
  · obtain ⟨pos, hscan, hle⟩ := @scanBackwardFrom_of text
      (anchor.column - (max 0 targetColumn).toNat) anchor.byte
    refine ⟨.bounded ⟨pos, anchor.line, (max 0 targetColumn).toNat⟩ false, ?_, by
      change pos ≤ text.length
      omega⟩
    simp only [scanBackwardLineColumnFromAnchor, hscan, bind, Except.bind]
    rfl

theorem lineColumnFromAnchor_of (anchor : Anchor)
    (targetLine targetColumn : Int) (options : AnchorOptions) :
    ∃ result, lineColumnFromAnchor (View.of text) chunkBytes anchor targetLine targetColumn
      options = .ok result ∧ result.Inside text.length := by
  unfold lineColumnFromAnchor
  dsimp only
  split_ifs
  · exact scanLineColumnFromAnchor_of (normalizeAnchor_inside anchor) _ _
  · split
    · next targetAnchor lineEnd _ =>
      split_ifs
      · exact ⟨_, rfl, normalizeAnchor_inside targetAnchor⟩
      · exact scanLineColumnFromAnchor_of (normalizeAnchor_inside targetAnchor) _ _
    · split
      · next lineAnchor _ =>
        exact scanLineColumnFromAnchor_of (normalizeAnchor_inside lineAnchor) _ _
      · exact ⟨_, rfl, trivial⟩

end Plain

end Space2.LazyTextBuffer
