import Space2.LazyTextBuffer.Runs

/-!
# Left and right

A move to the right classifies the bytes it passes, a move to the left only skips
continuation bytes. They undo each other except over a stray continuation byte.
-/
namespace Space2.LazyTextBuffer

/-- The codepoint boundaries as `next-codepoint-boundary` enumerates them from 0. -/
inductive Boundary (view : View) : Nat → Prop
  | start : Boundary view 0
  | next {byte found : Nat} : Boundary view byte → nextCodepointBoundary view byte = .ok found →
      Boundary view found

theorem completeUtf8_continuation {text : Bytes} {len : Nat}
    (h : completeUtf8SequenceLengthAt text = some len) {i : Nat} (hpos : 0 < i) (hlen : i < len) :
    utf8Continuation text[i]? = true := by
  cases text with
  | nil => cases h
  | cons lead rest =>
    rw [completeUtf8SequenceLengthAt] at h
    split at h
    · cases h
    · next seqLen hlead =>
      split_ifs at h with hshort hall
      obtain rfl := Option.some.inj h
      obtain ⟨k, rfl⟩ : ∃ k, i = k + 1 := ⟨i - 1, by omega⟩
      have hk : k < rest.length := by omega
      have hmem : rest[k] ∈ rest.take (seqLen - 1) := by
        rw [List.mem_take_iff_getElem]
        exact ⟨k, by omega, rfl⟩
      rw [List.getElem?_cons_succ, List.getElem?_eq_getElem hk]
      exact List.all_eq_true.mp hall _ hmem

/-- The bytes a move to the right skips are continuation bytes. -/
theorem utf8SourceAdvance_continuation (text : Bytes) {i : Nat} (hpos : 0 < i)
    (h : i < utf8SourceAdvance text) : utf8Continuation text[i]? = true := by
  unfold utf8SourceAdvance at h
  split at h
  · omega
  · next expectedLen hexpected =>
    split_ifs at h with htruncated
    · have hall := (Bool.and_eq_true_iff.mp htruncated).2
      obtain ⟨k, rfl⟩ : ∃ k, i = k + 1 := ⟨i - 1, by omega⟩
      have hk : k < text.tail.length := by
        rw [List.length_tail]
        omega
      rw [← List.getElem?_tail, List.getElem?_eq_getElem hk]
      exact List.all_eq_true.mp hall _ (List.getElem_mem hk)
    · split at h
      · next hcomplete => exact completeUtf8_continuation hcomplete hpos h
      · omega

variable {text : Bytes}

theorem nextCodepointBoundary_spec (text : Bytes) {byte : Nat} (h : byte < text.length) :
    ∃ found, nextCodepointBoundary (View.of text) byte = .ok found ∧ byte < found ∧
      found ≤ text.length ∧
        ∀ i, byte < i → i < found → utf8Continuation text[i]? = true := by
  obtain ⟨found, hfound, -, hinside, hmoves⟩ := nextCodepointBoundary_of h.le
  refine ⟨found, hfound, hmoves h, hinside, fun i hi hbefore => ?_⟩
  have hsize : (View.of text).size = text.length := rfl
  rw [nextCodepointBoundary, if_neg (by omega), hsize] at hfound
  have hvalue : min text.length
      (byte + utf8SourceAdvance ((text.drop byte).take (min 4 (text.length - byte)))) = found :=
    Except.ok.inj hfound
  obtain ⟨k, rfl⟩ : ∃ k, i = byte + k := ⟨i - byte, by omega⟩
  have hskipped := utf8SourceAdvance_continuation
    ((text.drop byte).take (min 4 (text.length - byte))) (i := k) (by omega) (by omega)
  rw [List.getElem?_take] at hskipped
  split_ifs at hskipped with hk
  · rwa [List.getElem?_drop] at hskipped
  · cases hskipped

/-- Back over continuation bytes. -/
theorem backOverContinuations_skips {low : Nat} (count : Nat)
    (h : ∀ i, low < i → i ≤ low + count → utf8Continuation text[i]? = true) :
    backOverContinuations (View.of text) (low + count) =
      backOverContinuations (View.of text) low := by
  induction count with
  | zero => rfl
  | succ count ih =>
    rw [← Nat.add_assoc, backOverContinuations, byteAt_of]
    simp only [bind, Except.bind]
    rw [if_pos (h (low + count + 1) (by omega) (by omega))]
    exact ih fun i hi hle => h i hi (by omega)

theorem backOverContinuations_stays (byte : Nat) :
    backOverContinuations (View.of text) byte = .ok byte ↔
      byte = 0 ∨ utf8Continuation text[byte]? = false := by
  cases byte with
  | zero => exact ⟨fun _ => .inl rfl, fun _ => rfl⟩
  | succ byte =>
    rw [backOverContinuations, byteAt_of]
    simp only [bind, Except.bind]
    split_ifs with hbyte
    · obtain ⟨found, hfound, hle⟩ := @backOverContinuations_of text byte
      rw [hfound]
      constructor
      · intro hsame
        have := Except.ok.inj hsame
        omega
      · rintro (hzero | hother)
        · cases hzero
        · rw [hbyte] at hother
          cases hother
    · exact ⟨fun _ => .inr (Bool.eq_false_of_not_eq_true hbyte), fun _ => rfl⟩

theorem previousCodepointBoundary_next {byte found : Nat} (h : byte < found)
    (hskipped : ∀ i, byte < i → i < found → utf8Continuation text[i]? = true) :
    previousCodepointBoundary (View.of text) found = .ok byte ↔
      byte = 0 ∨ utf8Continuation text[byte]? = false := by
  obtain ⟨count, rfl⟩ : ∃ count, found = byte + count + 1 := ⟨found - byte - 1, by omega⟩
  rw [previousCodepointBoundary,
    backOverContinuations_skips count fun i hi hle => hskipped i hi (by omega)]
  exact backOverContinuations_stays byte

namespace Buffer
variable {buffer : Buffer}

theorem Sound.deleteRange_text (h : buffer.Sound) {start finish : Nat} (hstart : start ≤ finish)
    (hfinish : finish ≤ buffer.size) :
    (buffer.deleteRange start finish).1.text =
      buffer.text.take start ++ buffer.text.drop finish := by
  have hplain : ({ buffer with selection := none } : Buffer).Sound :=
    ⟨h.pieces, h.size, h.cursor, nofun, h.anchors, h.chunk⟩
  have hdeleted := (hplain.deleteRange hstart hfinish nofun).2
  have htext := congrArg Editor.text hdeleted
  have hsame : (buffer.deleteRange start finish).1.text =
      (({ buffer with selection := none } : Buffer).deleteRange start finish).1.text := by
    unfold Buffer.deleteRange
    dsimp only
    split_ifs <;> rfl
  rw [hsame]
  refine htext.trans ?_
  rw [Editor.deleteRange]
  split_ifs with hmore
  · rw [Editor.splice, List.append_nil]
    rfl
  · obtain rfl : start = finish := by omega
    exact (List.take_append_drop start buffer.text).symm

end Buffer

/-- The move to the left from `found` comes back to `byte`, a deletion there removes what is
between, and the deletion to the right from `byte` removes the same. -/
structure MovesBack (buffer : Buffer) (byte found : Nat) : Prop where
  previous : previousCodepointBoundary buffer.view found = .ok byte
  before : ∃ after, ({ buffer with cursorByte := found } : Buffer).deleteBeforeCursor =
    .ok (after, true) ∧ after.text = buffer.text.take byte ++ buffer.text.drop found
  behind : ∃ after, ({ buffer with cursorByte := byte } : Buffer).deleteAtCursor =
    .ok (after, true) ∧ after.text = buffer.text.take byte ++ buffer.text.drop found

theorem deleteRange_deletes (buffer : Buffer) {start finish : Nat} (hstart : start < finish)
    (hfinish : finish ≤ buffer.size) : (buffer.deleteRange start finish).2 = true := by
  have hclamp : (clamp start 0 buffer.size).toNat = start ∧
      (clamp finish start buffer.size).toNat = finish := by
    unfold clamp
    omega
  unfold Buffer.deleteRange
  dsimp only
  rw [hclamp.1, hclamp.2, if_pos hstart]

/-- To the right and back again comes to the same byte exactly if this is no stray continuation
byte. -/
theorem moves_back_iff (buffer : Buffer) (h : buffer.Sound) (byte : Nat)
    (hbyte : byte < buffer.size) :
    ∃ found, nextCodepointBoundary buffer.view byte = .ok found ∧
      (MovesBack buffer byte found ↔ byte = 0 ∨ utf8Continuation buffer.text[byte]? = false) := by
  have hlength := h.size
  obtain ⟨found, hnext, hlater, hinside, hskipped⟩ :=
    nextCodepointBoundary_spec buffer.text (h.size ▸ hbyte)
  have hprevious := previousCodepointBoundary_next hlater hskipped
  rw [h.view_eq]
  refine ⟨found, hnext, ⟨fun hback => ?_, fun hlead => ?_⟩⟩
  · have hcame := hback.previous
    rw [h.view_eq] at hcame
    exact hprevious.mp hcame
  · have hcame := hprevious.mpr hlead
    have hview : ∀ cursor, ({ buffer with cursorByte := cursor } : Buffer).view =
        View.of buffer.text := fun cursor => h.view_eq
    have htext : ∀ cursor ≤ buffer.size, (({ buffer with cursorByte := cursor } : Buffer).deleteRange
        byte found).1.text = buffer.text.take byte ++ buffer.text.drop found := by
      intro cursor hcursor
      have hsound : ({ buffer with cursorByte := cursor } : Buffer).Sound :=
        ⟨h.pieces, h.size, hcursor, h.selection, h.anchors, h.chunk⟩
      exact hsound.deleteRange_text hlater.le (h.size ▸ hinside)
    have hdeletes : ∀ cursor, (({ buffer with cursorByte := cursor } : Buffer).deleteRange
        byte found).2 = true := fun cursor =>
      deleteRange_deletes { buffer with cursorByte := cursor } hlater (h.size ▸ hinside)
    refine ⟨by rw [h.view_eq]; exact hcame, ⟨_, ?_, htext found (h.size ▸ hinside)⟩,
      ⟨_, ?_, htext byte hbyte.le⟩⟩
    · unfold Buffer.deleteBeforeCursor
      rw [hview, if_neg (by dsimp only; omega)]
      simp only [hcame, bind, Except.bind, pure, Except.pure]
      exact congrArg Except.ok (Prod.ext rfl (hdeletes found))
    · unfold Buffer.deleteAtCursor
      rw [hview, if_neg (by dsimp only; omega)]
      simp only [hnext, bind, Except.bind, pure, Except.pure]
      exact congrArg Except.ok (Prod.ext rfl (hdeletes byte))

theorem moves_back_iff_euro :
    ∃ found, nextCodepointBoundary (Buffer.opened [0x61, 0xE2, 0x82, 0xAC] 4096).view 1 = .ok found ∧
      (MovesBack (Buffer.opened [0x61, 0xE2, 0x82, 0xAC] 4096) 1 found ↔
        1 = 0 ∨ utf8Continuation (Buffer.opened [0x61, 0xE2, 0x82, 0xAC] 4096).text[1]? = false) :=
  moves_back_iff _ (Buffer.opened_sound (by decide) (by decide)) 1 (by decide)

/-- Over a stray continuation byte the move to the left goes back two boundaries. -/
theorem not_moves_back :
    ¬ ∀ (buffer : Buffer), buffer.Sound → ∀ byte, Boundary buffer.view byte → byte < buffer.size →
      ∃ found, nextCodepointBoundary buffer.view byte = .ok found ∧ MovesBack buffer byte found := by
  intro hclaim
  have hsound : (Buffer.opened [0x61, 0x80] 4096).Sound := Buffer.opened_sound (by decide) (by decide)
  have hstart : nextCodepointBoundary (Buffer.opened [0x61, 0x80] 4096).view 0 = .ok 1 := by
    rw [hsound.view_eq]
    rfl
  obtain ⟨found, hnext, hback⟩ := hclaim _ hsound 1 (.next .start hstart) (by decide)
  obtain ⟨found', hnext', hiff⟩ := moves_back_iff _ hsound 1 (by decide)
  obtain rfl := Except.ok.inj (hnext.symm.trans hnext')
  exact absurd (hiff.mp hback) (by decide)

end Space2.LazyTextBuffer
