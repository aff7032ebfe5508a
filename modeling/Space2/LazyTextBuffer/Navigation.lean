import Space2.Base.Checks

/-!
# Caret positions of a lazy text buffer

Everything a caret move reads of the buffer is its size and ranges of its
composed text. Bytes are decoded as UTF-8 wherever they are well formed; a
truncated or malformed sequence counts as one replaced codepoint.
-/
namespace Space2.LazyTextBuffer

abbrev Bytes := List UInt8

structure View where
  size : Nat
  read : Nat → Nat → Except String Bytes

/-- The view of a plain byte string. -/
def View.of (text : Bytes) : View where
  size := text.length
  read := fun start count => .ok ((text.drop start).take count)

def outOfFuel : String := "out of fuel"

def clamp (value low high : Int) : Int := max low (min high value)

section Utf8

def utf8SequenceLength (byte : UInt8) : Option Nat :=
  if byte < 0x80 then some 1
  else if byte ≥ 0xC2 ∧ byte < 0xE0 then some 2
  else if byte ≥ 0xE0 ∧ byte < 0xF0 then some 3
  else if byte ≥ 0xF0 ∧ byte < 0xF5 then some 4
  else none

def isContinuation (byte : UInt8) : Bool := byte ≥ 0x80 && byte < 0xC0

def utf8Continuation : Option UInt8 → Bool
  | some byte => isContinuation byte
  | none => false

-- In the four functions below `text` is the source's text from its index on.
def completeUtf8SequenceLengthAt : Bytes → Option Nat
  | [] => none
  | lead :: rest =>
    match utf8SequenceLength lead with
    | none => none
    | some seqLen =>
      if seqLen > rest.length + 1 then none
      else if (rest.take (seqLen - 1)).all isContinuation then some seqLen
      else none

def validTruncatedUtf8Prefix (text : Bytes) : Option Nat → Bool
  | none => false
  | some expectedLen => expectedLen > text.length && text.tail.all isContinuation

-- The two last branches of the source that ask for a decoded codepoint return
-- the length they return without one.
def utf8SourceAdvance (text : Bytes) : Nat :=
  match text.head?.bind utf8SequenceLength with
  | none => 1
  | some expectedLen =>
    if validTruncatedUtf8Prefix text (some expectedLen) then text.length
    else
      match completeUtf8SequenceLengthAt text with
      | some completeLen => completeLen
      | none => 1

def completeUtf8PrefixFrom : Nat → Bytes → Nat
  | 0, _ => 0
  | fuel + 1, text =>
    match completeUtf8SequenceLengthAt text with
    | some seqLen => seqLen + completeUtf8PrefixFrom fuel (text.drop seqLen)
    | none => 0

def completeUtf8PrefixLength (text : Bytes) : Nat := completeUtf8PrefixFrom text.length text

theorem utf8SequenceLength_pos {byte : UInt8} {len : Nat} (h : utf8SequenceLength byte = some len) :
    0 < len := by
  unfold utf8SequenceLength at h
  split_ifs at h <;> simp only [Option.some.injEq] at h <;> omega

theorem completeUtf8SequenceLengthAt_pos {text : Bytes} {len : Nat}
    (h : completeUtf8SequenceLengthAt text = some len) : 0 < len := by
  cases text with
  | nil => cases h
  | cons lead rest =>
    rw [completeUtf8SequenceLengthAt] at h
    split at h
    · cases h
    · next seqLen hlead =>
      split_ifs at h
      cases h
      exact utf8SequenceLength_pos hlead

theorem utf8SourceAdvance_pos {text : Bytes} (h : text ≠ []) : 0 < utf8SourceAdvance text := by
  have hlength := List.length_pos_iff.mpr h
  unfold utf8SourceAdvance
  split
  · omega
  · split_ifs
    · exact hlength
    · split
      · next hcomplete => exact completeUtf8SequenceLengthAt_pos hcomplete
      · omega

end Utf8

section Boundaries
variable (view : View)

def byteAt (byte : Nat) : Except String (Option UInt8) :=
  if byte < view.size then do
    let text ← view.read byte 1
    pure text.head?
  else pure none

def backOverContinuations : Nat → Except String Nat
  | 0 => pure 0
  | pos + 1 => do
    if utf8Continuation (← byteAt view (pos + 1)) then backOverContinuations pos
    else pure (pos + 1)

def previousCodepointBoundary : Nat → Except String Nat
  | 0 => pure 0
  | byte + 1 => backOverContinuations view byte

def nextCodepointBoundary (byte : Nat) : Except String Nat :=
  if byte ≥ view.size then pure view.size
  else do
    let chunk ← view.read byte (min 4 (view.size - byte))
    pure (min view.size (byte + utf8SourceAdvance chunk))

end Boundaries

section Plain
variable {text : Bytes}

theorem byteAt_of (byte : Nat) : byteAt (View.of text) byte = .ok text[byte]? := by
  unfold byteAt View.of
  dsimp only
  split_ifs with hbyte
  · simp only [bind, Except.bind, pure, Except.pure]
    rw [List.head?_take]
    simp
  · rw [List.getElem?_eq_none (by omega)]
    rfl

theorem backOverContinuations_of (pos : Nat) :
    ∃ found, backOverContinuations (View.of text) pos = .ok found ∧ found ≤ pos := by
  induction pos with
  | zero => exact ⟨0, rfl, Nat.le_refl 0⟩
  | succ pos ih =>
    obtain ⟨found, hfound, hle⟩ := ih
    simp only [backOverContinuations, byteAt_of, bind, Except.bind]
    split_ifs
    · exact ⟨found, hfound, by omega⟩
    · exact ⟨pos + 1, rfl, Nat.le_refl _⟩

theorem previousCodepointBoundary_of (byte : Nat) :
    ∃ found, previousCodepointBoundary (View.of text) byte = .ok found ∧ found ≤ byte ∧
      (0 < byte → found < byte) := by
  cases byte with
  | zero => exact ⟨0, rfl, Nat.le_refl 0, id⟩
  | succ pos =>
    obtain ⟨found, hfound, hle⟩ := @backOverContinuations_of text pos
    exact ⟨found, hfound, by omega, fun _ => by omega⟩

theorem nextCodepointBoundary_of {byte : Nat} (h : byte ≤ text.length) :
    ∃ found, nextCodepointBoundary (View.of text) byte = .ok found ∧ byte ≤ found ∧
      found ≤ text.length ∧ (byte < text.length → byte < found) := by
  have hsize : (View.of text).size = text.length := rfl
  by_cases hend : byte = text.length
  · rw [nextCodepointBoundary, if_pos (by omega)]
    exact ⟨text.length, rfl, h, Nat.le_refl _, fun hlt => by omega⟩
  · rw [nextCodepointBoundary, if_neg (by omega)]
    have hchunk : (text.drop byte).take (min 4 (text.length - byte)) ≠ [] := by
      rw [← List.length_pos_iff, List.length_take, List.length_drop]
      omega
    have hadvance := utf8SourceAdvance_pos hchunk
    refine ⟨_, rfl, ?_, ?_, fun _ => ?_⟩ <;> rw [hsize] <;> omega

end Plain

end Space2.LazyTextBuffer
