import Space2.LazyTextBuffer.Boundaries

/-!
# Places of a whole text

Read as a whole, a text is a sequence of codepoints and newlines. Every place
between two of them has a byte, a line and a column, and the three grow together.
-/
namespace Space2.LazyTextBuffer

/-! ## One codepoint of the whole text -/

/-- How far the codepoint at the front of the rest of a text reaches. -/
def codepointAdvance (rest : Bytes) : Nat :=
  match completeUtf8SequenceLengthAt rest with
  | some completeLen => completeLen
  | none =>
    if validTruncatedUtf8Prefix rest (rest.head?.bind utf8SequenceLength) then rest.length else 1

theorem utf8SequenceLength_le {byte : UInt8} {len : Nat} (h : utf8SequenceLength byte = some len) :
    len ≤ 4 := by
  unfold utf8SequenceLength at h
  split_ifs at h <;> simp only [Option.some.injEq] at h <;> omega

theorem completeUtf8_some {lead : UInt8} {seqLen : Nat} (h : utf8SequenceLength lead = some seqLen)
    {tail : Bytes} (hfits : seqLen ≤ tail.length + 1)
    (hall : (tail.take (seqLen - 1)).all isContinuation = true) :
    completeUtf8SequenceLengthAt (lead :: tail) = some seqLen := by
  rw [completeUtf8SequenceLengthAt, h]
  dsimp only
  rw [if_neg (not_lt.mpr hfits), if_pos hall]

theorem completeUtf8_broken {lead : UInt8} {seqLen : Nat} (h : utf8SequenceLength lead = some seqLen)
    {tail : Bytes} (hbroken : seqLen ≤ tail.length + 1 →
      ¬ (tail.take (seqLen - 1)).all isContinuation = true) :
    completeUtf8SequenceLengthAt (lead :: tail) = none := by
  rw [completeUtf8SequenceLengthAt, h]
  dsimp only
  by_cases hfits : seqLen ≤ tail.length + 1
  · rw [if_neg (not_lt.mpr hfits), if_neg (hbroken hfits)]
  · rw [if_pos (not_le.mp hfits)]

theorem completeUtf8_none {lead : UInt8} (h : utf8SequenceLength lead = none) (tail : Bytes) :
    completeUtf8SequenceLengthAt (lead :: tail) = none := by
  rw [completeUtf8SequenceLengthAt, h]

theorem completeUtf8_le {text : Bytes} {len : Nat} (h : completeUtf8SequenceLengthAt text = some len) :
    len ≤ text.length ∧ len ≤ 4 := by
  cases text with
  | nil => cases h
  | cons lead tail =>
    cases hlead : utf8SequenceLength lead with
    | none =>
      rw [completeUtf8_none hlead] at h
      cases h
    | some seqLen =>
      rw [completeUtf8SequenceLengthAt, hlead] at h
      dsimp only at h
      split_ifs at h with hlong hall
      obtain rfl := Option.some.inj h
      exact ⟨not_lt.mp hlong, utf8SequenceLength_le hlead⟩

theorem codepointAdvance_pos {rest : Bytes} (h : rest ≠ []) : 0 < codepointAdvance rest := by
  have hlength := List.length_pos_iff.mpr h
  unfold codepointAdvance
  split
  · next hcomplete => exact completeUtf8SequenceLengthAt_pos hcomplete
  · split_ifs
    · exact hlength
    · exact Nat.one_pos

theorem codepointAdvance_le {rest : Bytes} (h : rest ≠ []) : codepointAdvance rest ≤ rest.length := by
  have hlength := List.length_pos_iff.mpr h
  unfold codepointAdvance
  split
  · next hcomplete => exact (completeUtf8_le hcomplete).1
  · split_ifs
    · exact le_rfl
    · exact hlength

theorem codepointAdvance_continuation (rest : Bytes) {i : Nat} (hpos : 0 < i)
    (h : i < codepointAdvance rest) : utf8Continuation rest[i]? = true := by
  unfold codepointAdvance at h
  split at h
  · next hcomplete => exact completeUtf8_continuation hcomplete hpos h
  · split_ifs at h with htruncated
    · obtain ⟨k, rfl⟩ : ∃ k, i = k + 1 := ⟨i - 1, by omega⟩
      have hk : k < rest.tail.length := by
        rw [List.length_tail]
        omega
      cases hexpected : rest.head?.bind utf8SequenceLength with
      | none =>
        rw [hexpected] at htruncated
        cases htruncated
      | some expectedLen =>
        rw [hexpected] at htruncated
        have hall := (Bool.and_eq_true_iff.mp htruncated).2
        rw [← List.getElem?_tail, List.getElem?_eq_getElem hk]
        exact List.all_eq_true.mp hall _ (List.getElem_mem hk)
    · omega

theorem codepointAdvance_ascii {b : UInt8} (h : b < 0x80) (tail : Bytes) :
    codepointAdvance (b :: tail) = 1 := by
  have hlead : utf8SequenceLength b = some 1 := if_pos h
  have hcomplete : completeUtf8SequenceLengthAt (b :: tail) = some 1 :=
    completeUtf8_some hlead (Nat.succ_pos _) (by simp)
  rw [codepointAdvance, hcomplete]

/-- The sequence at the front is well formed as far as it goes, and goes over the end. -/
def truncated (text : Bytes) : Bool :=
  validTruncatedUtf8Prefix text (text.head?.bind utf8SequenceLength)

theorem truncated_none {lead : UInt8} (h : utf8SequenceLength lead = none) (tail : Bytes) :
    truncated (lead :: tail) = false := by
  rw [truncated, List.head?_cons, Option.bind_some, h]
  rfl

theorem truncated_cons {lead : UInt8} {seqLen : Nat} (h : utf8SequenceLength lead = some seqLen)
    (tail : Bytes) : truncated (lead :: tail) = true ↔
      tail.length + 1 < seqLen ∧ tail.all isContinuation = true := by
  rw [truncated, List.head?_cons, Option.bind_some, h, validTruncatedUtf8Prefix, Bool.and_eq_true_iff,
    decide_eq_true_iff, List.length_cons, List.tail_cons, gt_iff_lt]

theorem codepointAdvance_eq (rest : Bytes) : codepointAdvance rest =
    match completeUtf8SequenceLengthAt rest with
    | some completeLen => completeLen
    | none => if truncated rest = true then rest.length else 1 := rfl

theorem logicalCodepointStep_eq (view : View) (text : Bytes) (globalByte : Nat) :
    logicalCodepointStep view text globalByte =
    match completeUtf8SequenceLengthAt text with
    | some completeLen => (completeLen, false)
    | none =>
      if truncated text = true then
        if globalByte + text.length < view.size then (0, true) else (text.length, false)
      else (1, false) := rfl

/-- In a part of the rest a step is the step in the whole rest, or the part is too short for it. -/
theorem step_of_take {view : View} {rest : Bytes} {globalByte count : Nat} (hcount : 0 < count)
    (hrest : rest ≠ []) (hsize : view.size = globalByte + rest.length) :
    logicalCodepointStep view (rest.take count) globalByte = (codepointAdvance rest, false) ∨
      logicalCodepointStep view (rest.take count) globalByte = (0, true) ∧ count < 4 ∧
        count < rest.length := by
  obtain ⟨lead, tail, rfl⟩ := List.exists_cons_of_ne_nil hrest
  obtain ⟨part, rfl⟩ : ∃ part, count = part + 1 := ⟨count - 1, by omega⟩
  rw [List.take_succ_cons, logicalCodepointStep_eq, codepointAdvance_eq]
  cases hlead : utf8SequenceLength lead with
  | none =>
    rw [completeUtf8_none hlead, completeUtf8_none hlead, truncated_none hlead, truncated_none hlead]
    exact Or.inl rfl
  | some seqLen =>
    have hseq := utf8SequenceLength_le hlead
    have hlength : (tail.take part).length = min part tail.length := List.length_take
    by_cases hfits : seqLen ≤ min part tail.length + 1
    · -- the part holds the whole sequence
      have hsame : (tail.take part).take (seqLen - 1) = tail.take (seqLen - 1) := by
        rw [List.take_take, Nat.min_eq_left (by omega)]
      refine Or.inl ?_
      by_cases hall : (tail.take (seqLen - 1)).all isContinuation = true
      · rw [completeUtf8_some hlead (by omega) (hsame ▸ hall), completeUtf8_some hlead (by omega) hall]
      · have hpart : ¬ truncated (lead :: tail.take part) = true := by
          rw [truncated_cons hlead]
          omega
        have hwhole : ¬ truncated (lead :: tail) = true := by
          rw [truncated_cons hlead]
          omega
        rw [completeUtf8_broken hlead fun _ => hsame ▸ hall, completeUtf8_broken hlead fun _ => hall]
        dsimp only
        rw [if_neg hpart, if_neg hwhole]
    · have hcut : completeUtf8SequenceLengthAt (lead :: tail.take part) = none :=
        completeUtf8_broken hlead fun hle => absurd hle (by omega)
      rw [hcut]
      dsimp only
      by_cases hall : (tail.take part).all isContinuation = true
      · rw [if_pos ((truncated_cons hlead _).mpr ⟨by omega, hall⟩), List.length_cons, hlength]
        by_cases hmore : part < tail.length
        · -- more bytes are needed, and there are more
          rw [List.length_cons] at hsize ⊢
          exact Or.inr ⟨if_pos (by omega), by omega, by omega⟩
        · -- the part is the whole rest
          have htake : tail.take part = tail := List.take_of_length_le (by omega)
          rw [htake] at hcut hall
          rw [hcut, if_neg (by rw [hsize, List.length_cons]; omega), Nat.min_eq_right (by omega)]
          dsimp only
          rw [if_pos ((truncated_cons hlead _).mpr ⟨by omega, hall⟩), List.length_cons]
          exact Or.inl rfl
      · -- a byte of the part breaks the sequence
        have hinside : tail.take part = (tail.take (seqLen - 1)).take part := by
          rw [List.take_take, List.take_eq_take_iff]
          omega
        have hbroken : ¬ (tail.take (seqLen - 1)).all isContinuation = true := by
          intro h
          rw [hinside] at hall
          exact hall (List.all_eq_true.mpr fun byte hbyte =>
            List.all_eq_true.mp h byte (List.mem_of_mem_take hbyte))
        have hbroken' : ¬ tail.all isContinuation = true := by
          intro h
          exact hall (List.all_eq_true.mpr fun byte hbyte =>
            List.all_eq_true.mp h byte (List.mem_of_mem_take hbyte))
        rw [if_neg fun h => hall ((truncated_cons hlead _).mp h).2, completeUtf8_broken hlead fun _ => hbroken]
        dsimp only
        rw [if_neg fun h => hbroken' ((truncated_cons hlead _).mp h).2]
        exact Or.inl rfl

theorem completeUtf8_take {text : Bytes} {len count : Nat} (h : completeUtf8SequenceLengthAt text = some len)
    (hcount : len ≤ count) : completeUtf8SequenceLengthAt (text.take count) = some len := by
  have hpos := completeUtf8SequenceLengthAt_pos h
  cases text with
  | nil => cases h
  | cons lead tail =>
    obtain ⟨part, rfl⟩ : ∃ part, count = part + 1 := ⟨count - 1, by omega⟩
    cases hlead : utf8SequenceLength lead with
    | none =>
      rw [completeUtf8_none hlead] at h
      cases h
    | some seqLen =>
      rw [completeUtf8SequenceLengthAt, hlead] at h
      dsimp only at h
      split_ifs at h with hlong hall
      obtain rfl := Option.some.inj h
      rw [List.take_succ_cons]
      refine completeUtf8_some hlead ?_ ?_
      · rw [List.length_take]
        omega
      · rwa [List.take_take, Nat.min_eq_left (by omega)]

/-- A chunk is a part of the text, and its first step is not cut short. -/
theorem readLogicalChunk_spec {text : Bytes} {pos : Nat} (h : pos < text.length) :
    ∃ count, readLogicalChunk (View.of text) pos = .ok ((text.drop pos).take count) ∧ 0 < count ∧
      pos + count ≤ text.length ∧
      logicalCodepointStep (View.of text) ((text.drop pos).take count) pos =
        (codepointAdvance (text.drop pos), false) := by
  have hrest : text.drop pos ≠ [] := by
    intro hnil
    have := List.drop_eq_nil_iff.mp hnil
    omega
  have hsize : (View.of text).size = pos + (text.drop pos).length := by
    rw [List.length_drop]
    change text.length = _
    omega
  obtain ⟨whole, hwhole⟩ : ∃ whole, whole = min logicalScanChunkBytes (text.length - pos) := ⟨_, rfl⟩
  have hbounds : 0 < whole ∧ pos + whole ≤ text.length ∧ (whole < 4 → whole = text.length - pos) := by
    rw [hwhole, logicalScanChunkBytes]
    omega
  have hlength : ((text.drop pos).take whole).length = whole := by
    rw [List.length_take, List.length_drop]
    omega
  have huncut : logicalCodepointStep (View.of text) ((text.drop pos).take whole) pos =
      (codepointAdvance (text.drop pos), false) := by
    rcases step_of_take hbounds.1 hrest hsize with hstep | ⟨-, hshort, hless⟩
    · exact hstep
    · rw [List.length_drop] at hless
      omega
  have hview : (View.of text).read pos (min logicalScanChunkBytes ((View.of text).size - pos)) =
      .ok ((text.drop pos).take whole) := by
    rw [hwhole]
    rfl
  simp only [readLogicalChunk, hview, bind, Except.bind]
  split_ifs with hcut hbegins
  · cases hfirst : completeUtf8SequenceLengthAt ((text.drop pos).take whole) with
    | none =>
      rw [completeUtf8PrefixLength, hlength] at hbegins
      obtain ⟨fuel, rfl⟩ : ∃ fuel, whole = fuel + 1 := ⟨whole - 1, by omega⟩
      rw [completeUtf8PrefixFrom, hfirst] at hbegins
      exact absurd hbegins (lt_irrefl 0)
    | some len =>
      have hle := (completeUtf8_le hfirst).1
      have hcovers : len ≤ completeUtf8PrefixLength ((text.drop pos).take whole) := by
        rw [completeUtf8PrefixLength, hlength]
        obtain ⟨fuel, rfl⟩ : ∃ fuel, whole = fuel + 1 := ⟨whole - 1, by omega⟩
        rw [completeUtf8PrefixFrom, hfirst]
        exact Nat.le_add_right _ _
      have hcomplete := completeUtf8_take hfirst hcovers
      have hpos := completeUtf8SequenceLengthAt_pos hfirst
      obtain ⟨count, hcount⟩ : ∃ count, count =
          min (completeUtf8PrefixLength ((text.drop pos).take whole)) whole := ⟨_, rfl⟩
      rw [List.take_take, ← hcount] at hcomplete ⊢
      refine ⟨count, rfl, by omega, by omega, ?_⟩
      have hpositive : 0 < count := by omega
      rcases step_of_take hpositive hrest hsize with hstep | ⟨hstep, -⟩
      · exact hstep
      · rw [logicalCodepointStep_eq, hcomplete] at hstep
        exact absurd (congrArg Prod.snd hstep) Bool.false_ne_true
  · exact ⟨whole, rfl, hbounds.1, hbounds.2.1, huncut⟩
  · exact ⟨whole, rfl, hbounds.1, hbounds.2.1, huncut⟩

/-! ## Newlines -/

def isNewline (b : UInt8) : Bool := b = 10 || b = 13

/-- The length of the newline at the front, 0 without one. -/
def newlineLength : Bytes → Nat
  | [] => 0
  | b :: rest => if b = 10 then 1 else if b = 13 then (if rest.head? = some 10 then 2 else 1) else 0

/-- The bytes up to the next newline or the end. -/
def lineContent (rest : Bytes) : Nat := (rest.takeWhile fun b => !isNewline b).length

/-- The byte at which a line starts, by its newlines alone. -/
def lineStart (text : Bytes) : Nat → Option Nat
  | 0 => some 0
  | line + 1 => (lineStart text line).bind fun start =>
    let stop := start + lineContent (text.drop start)
    let newline := newlineLength (text.drop stop)
    if newline = 0 then none else some (stop + newline)

theorem newlineLength_le (rest : Bytes) : newlineLength rest ≤ rest.length := by
  cases rest with
  | nil => exact le_rfl
  | cons b rest =>
    rw [newlineLength, List.length_cons]
    split_ifs with h10 h13 hhead
    · omega
    · cases rest with
      | nil => cases hhead
      | cons next rest =>
        rw [List.length_cons]
        omega
    · omega
    · omega

theorem newlineLength_eq_zero {b : UInt8} {rest : Bytes} :
    newlineLength (b :: rest) = 0 ↔ isNewline b = false := by
  rw [newlineLength, isNewline]
  split_ifs with h10 h13 <;> simp [*]

theorem newlineLength_cases (text : Bytes) (i : Nat) : newlineLength (text.drop i) = 0 ∨
    newlineLength (text.drop i) = 1 ∨
      newlineLength (text.drop i) = 2 ∧ text[i]? = some 13 ∧ text[i + 1]? = some 10 := by
  by_cases hinside : i < text.length
  · rw [List.drop_eq_getElem_cons hinside, newlineLength, List.head?_drop, List.getElem?_eq_getElem hinside]
    split_ifs with h10 h13 hnext
    · exact Or.inr (Or.inl rfl)
    · exact Or.inr (Or.inr ⟨rfl, congrArg some h13, hnext⟩)
    · exact Or.inr (Or.inl rfl)
    · exact Or.inl rfl
  · rw [List.drop_of_length_le (not_lt.mp hinside)]
    exact Or.inl rfl

theorem not_isNewline_of_continuation {b : UInt8} (h : isContinuation b = true) : isNewline b = false := by
  unfold isContinuation at h
  unfold isNewline
  have hlow : (0x80 : UInt8) ≤ b := by
    have := (Bool.and_eq_true_iff.mp h).1
    simpa using this
  have hne10 : b ≠ 10 := by
    rintro rfl
    exact absurd hlow (by decide)
  have hne13 : b ≠ 13 := by
    rintro rfl
    exact absurd hlow (by decide)
  simp [hne10, hne13]

/-- No byte that is in the text from `start` on and before `stop` is part of a newline. -/
def Plain (text : Bytes) (start stop : Nat) : Prop :=
  ∀ i, start ≤ i → i < stop → ∃ b, text[i]? = some b ∧ isNewline b = false

theorem Plain.trans {text : Bytes} {start middle stop : Nat} (h : Plain text start middle)
    (h' : Plain text middle stop) : Plain text start stop := by
  intro i hfrom hto
  rcases Nat.lt_or_ge i middle with hbefore | hafter
  · exact h i hfrom hbefore
  · exact h' i hafter hto

theorem Plain.le_length {text : Bytes} {start stop : Nat} (h : Plain text start stop) (hlt : start < stop) :
    stop ≤ text.length := by
  obtain ⟨b, hb, -⟩ := h (stop - 1) (by omega) (by omega)
  have := (List.getElem?_eq_some_iff.mp hb).1
  omega

/-- The content of a line ends where the plain bytes do. -/
theorem lineContent_eq {text : Bytes} {start count : Nat} (h : Plain text start (start + count))
    (hend : text.length ≤ start + count ∨ newlineLength (text.drop (start + count)) ≠ 0) :
    lineContent (text.drop start) = count := by
  induction count generalizing start with
  | zero =>
    rw [Nat.add_zero] at hend
    unfold lineContent
    rcases hend with hpast | hnewline
    · rw [List.drop_of_length_le hpast]
      rfl
    · cases hrest : text.drop start with
      | nil => rfl
      | cons b rest =>
        rw [hrest] at hnewline
        have hb : isNewline b = true := by
          by_contra hplain
          exact hnewline (newlineLength_eq_zero.mpr (by simpa using hplain))
        rw [List.takeWhile_cons, hb]
        rfl
  | succ count ih =>
    obtain ⟨b, hb, hplain⟩ := h start le_rfl (by omega)
    obtain ⟨hlt, rfl⟩ := List.getElem?_eq_some_iff.mp hb
    have hlater : Plain text (start + 1) (start + 1 + count) := fun i hfrom hto => h i (by omega) (by omega)
    have hrest := ih hlater
      (by rwa [show start + 1 + count = start + (count + 1) by omega])
    unfold lineContent at hrest ⊢
    rw [List.drop_eq_getElem_cons hlt, List.takeWhile_cons, hplain]
    exact congrArg Nat.succ hrest

theorem lineContent_cons (b : UInt8) (rest : Bytes) :
    lineContent (b :: rest) = if isNewline b = true then 0 else lineContent rest + 1 := by
  unfold lineContent
  rw [List.takeWhile_cons]
  cases isNewline b <;> rfl

theorem lineContent_spec (rest : Bytes) :
    (∀ i < lineContent rest, ∃ b, rest[i]? = some b ∧ isNewline b = false) ∧
      (lineContent rest = rest.length ∨ newlineLength (rest.drop (lineContent rest)) ≠ 0) := by
  induction rest with
  | nil => exact ⟨fun i hi => absurd hi (Nat.not_lt_zero i), Or.inl rfl⟩
  | cons b rest ih =>
    obtain ⟨hplain, hend⟩ := ih
    rw [lineContent_cons]
    cases hb : isNewline b with
    | true =>
      rw [if_pos rfl]
      refine ⟨fun i hi => absurd hi (Nat.not_lt_zero i), Or.inr fun hzero => ?_⟩
      rw [List.drop_zero, newlineLength_eq_zero, hb] at hzero
      cases hzero
    | false =>
      rw [if_neg Bool.false_ne_true, List.length_cons, List.drop_succ_cons]
      refine ⟨fun i hi => ?_, hend.imp_left fun hlength => by rw [hlength]⟩
      cases i with
      | zero => exact ⟨b, rfl, hb⟩
      | succ i => exact hplain i (Nat.lt_of_succ_lt_succ hi)

theorem plain_lineContent (text : Bytes) (start : Nat) :
    Plain text start (start + lineContent (text.drop start)) := by
  intro i hfrom hto
  obtain ⟨k, rfl⟩ : ∃ k, i = start + k := ⟨i - start, by omega⟩
  obtain ⟨b, hb, hplain⟩ := (lineContent_spec (text.drop start)).1 k (by omega)
  rw [List.getElem?_drop] at hb
  exact ⟨b, hb, hplain⟩

theorem lineContent_end (text : Bytes) (start : Nat) :
    text.length ≤ start + lineContent (text.drop start) ∨
      newlineLength (text.drop (start + lineContent (text.drop start))) ≠ 0 := by
  rcases (lineContent_spec (text.drop start)).2 with hlength | hnewline
  · rw [List.length_drop] at hlength
    exact Or.inl (by omega)
  · rw [List.drop_drop] at hnewline
    exact Or.inr hnewline

/-! ## Places -/

structure Place where
  byte : Nat
  line : Nat
  column : Nat
  deriving DecidableEq

def nextPlace (text : Bytes) (p : Place) : Place :=
  let rest := text.drop p.byte
  if newlineLength rest = 0 then ⟨p.byte + codepointAdvance rest, p.line, p.column + 1⟩
  else ⟨p.byte + newlineLength rest, p.line + 1, 0⟩

/-- One codepoint or newline further. -/
def Next (text : Bytes) (p q : Place) : Prop := p.byte < text.length ∧ nextPlace text p = q

/-- From one place to another, codepoint by codepoint. -/
abbrev Leads (text : Bytes) : Place → Place → Prop := Relation.ReflTransGen (Next text)

def Reached (text : Bytes) (p : Place) : Prop := Leads text ⟨0, 0, 0⟩ p

def Place.Before (p q : Place) : Prop := p.line < q.line ∨ p.line = q.line ∧ p.column < q.column

variable {text : Bytes} {p q : Place}

theorem Next.increases (h : Next text p q) : p.byte < q.byte ∧ q.byte ≤ text.length ∧ p.Before q := by
  obtain ⟨hinside, rfl⟩ := h
  have hrest : text.drop p.byte ≠ [] := by
    intro hnil
    have := List.drop_eq_nil_iff.mp hnil
    omega
  have hadvance := codepointAdvance_pos hrest
  have hle := codepointAdvance_le hrest
  have hnewline := newlineLength_le (text.drop p.byte)
  rw [List.length_drop] at hle hnewline
  unfold nextPlace
  dsimp only
  split_ifs with hzero
  · refine ⟨?_, ?_, Or.inr ⟨rfl, Nat.lt_succ_self _⟩⟩ <;> dsimp only <;> omega
  · refine ⟨?_, ?_, Or.inl (Nat.lt_succ_self _)⟩ <;> dsimp only <;> omega

theorem Place.Before.trans {r : Place} (h : p.Before q) (h' : q.Before r) : p.Before r := by
  unfold Place.Before at *
  omega

theorem Leads.eq_or_before (h : Leads text p q) : p = q ∨ p.byte < q.byte ∧ p.Before q := by
  induction h with
  | refl => exact Or.inl rfl
  | tail _ hstep ih =>
    obtain ⟨hbyte, -, hbefore⟩ := hstep.increases
    rcases ih with rfl | ⟨hearlier, hless⟩
    · exact Or.inr ⟨hbyte, hbefore⟩
    · exact Or.inr ⟨hearlier.trans hbyte, hless.trans hbefore⟩

theorem Reached.le_length (h : Reached text p) : p.byte ≤ text.length := by
  cases h with
  | refl => exact Nat.zero_le _
  | tail _ hstep => exact hstep.increases.2.1

/-- Of two places that are reached, one leads to the other. -/
theorem Reached.total (hp : Reached text p) (hq : Reached text q) : Leads text p q ∨ Leads text q p := by
  refine Relation.ReflTransGen.total_of_right_unique ?_ hp hq
  rintro place first second ⟨-, rfl⟩ ⟨-, rfl⟩
  rfl

theorem Reached.eq_of_byte (hp : Reached text p) (hq : Reached text q) (h : p.byte = q.byte) : p = q := by
  rcases hp.total hq with hleads | hleads
  · rcases hleads.eq_or_before with rfl | ⟨hless, -⟩
    · rfl
    · omega
  · rcases hleads.eq_or_before with rfl | ⟨hless, -⟩
    · rfl
    · omega

/-- The bytes of the places grow with their lines and columns. -/
theorem Reached.byte_lt_iff (hp : Reached text p) (hq : Reached text q) : p.byte < q.byte ↔ p.Before q := by
  rcases hp.total hq with hleads | hleads
  · rcases hleads.eq_or_before with rfl | ⟨hless, hbefore⟩
    · unfold Place.Before
      omega
    · exact iff_of_true hless hbefore
  · rcases hleads.eq_or_before with rfl | ⟨hless, hbefore⟩
    · unfold Place.Before
      omega
    · unfold Place.Before at *
      omega

/-- A place that leads further leads there over the next place. -/
theorem Leads.over_next (h : Leads text p q) (hne : p ≠ q) : Leads text (nextPlace text p) q := by
  rcases Relation.ReflTransGen.cases_head h with rfl | ⟨next, ⟨-, rfl⟩, hrest⟩
  · exact absurd rfl hne
  · exact hrest

theorem Reached.next (h : Reached text p) (hinside : p.byte < text.length) :
    Reached text (nextPlace text p) := h.tail ⟨hinside, rfl⟩

theorem Reached.leads_of_lt (hp : Reached text p) (hq : Reached text q) (h : p.byte < q.byte) :
    Leads text (nextPlace text p) q := by
  rcases hp.total hq with hleads | hleads
  · refine hleads.over_next ?_
    rintro rfl
    omega
  · rcases hleads.eq_or_before with rfl | ⟨hless, -⟩ <;> omega

/-! ## Lines -/

theorem newlineLength_drop {i : Nat} (h : i < text.length) :
    newlineLength (text.drop i) = 0 ↔ isNewline text[i] = false := by
  rw [List.drop_eq_getElem_cons h, newlineLength_eq_zero]

/-- The bytes of a codepoint are plain. -/
theorem plain_codepoint {start : Nat} (h : start < text.length)
    (hplain : newlineLength (text.drop start) = 0) :
    Plain text start (start + codepointAdvance (text.drop start)) := by
  intro i hfrom hto
  rcases hfrom.eq_or_lt with rfl | hlater
  · exact ⟨text[start], List.getElem?_eq_getElem h, (newlineLength_drop h).mp hplain⟩
  · have hcontinuation := codepointAdvance_continuation (text.drop start) (i := i - start)
      (by omega) (by omega)
    rw [List.getElem?_drop, Nat.add_sub_cancel' hfrom] at hcontinuation
    cases hb : text[i]? with
    | none =>
      rw [hb] at hcontinuation
      cases hcontinuation
    | some b =>
      rw [hb] at hcontinuation
      exact ⟨b, rfl, not_isNewline_of_continuation hcontinuation⟩

/-- Every place is on the line that its newlines count, and after its start. -/
theorem Reached.line (h : Reached text p) :
    ∃ start, lineStart text p.line = some start ∧ start ≤ p.byte ∧ Plain text start p.byte := by
  induction h with
  | refl => exact ⟨0, rfl, le_rfl, fun i hfrom hto => absurd hto (Nat.not_lt_zero i)⟩
  | @tail p q _ hstep ih =>
    obtain ⟨start, hstart, hle, hplain⟩ := ih
    obtain ⟨hinside, rfl⟩ := hstep
    unfold nextPlace
    dsimp only
    split_ifs with hzero
    · refine ⟨start, hstart, hle.trans (Nat.le_add_right _ _), hplain.trans (plain_codepoint hinside hzero)⟩
    · have hcontent : lineContent (text.drop start) = p.byte - start := by
        have hsame : start + (p.byte - start) = p.byte := by omega
        refine lineContent_eq ?_ (Or.inr ?_)
        · rwa [hsame]
        · rwa [hsame]
      refine ⟨p.byte + newlineLength (text.drop p.byte), ?_, le_rfl,
        fun i hfrom hto => absurd hto (Nat.not_lt.mpr hfrom)⟩
      rw [lineStart, hstart, Option.bind_some, hcontent, Nat.add_sub_cancel' hle, if_neg hzero]

/-- Over plain bytes up to a newline or the end, the places stay on the line. -/
theorem Reached.walk (h : Reached text p) {count : Nat} (hplain : Plain text p.byte (p.byte + count))
    (hend : text.length ≤ p.byte + count ∨ newlineLength (text.drop (p.byte + count)) ≠ 0) :
    ∃ column, p.column ≤ column ∧ Leads text p ⟨p.byte + count, p.line, column⟩ := by
  induction count using Nat.strong_induction_on generalizing p with
  | _ count ih =>
    rcases Nat.eq_zero_or_pos count with rfl | hpos
    · exact ⟨p.column, le_rfl, Relation.ReflTransGen.refl⟩
    · have hinside := hplain.le_length (by omega)
      have hlt : p.byte < text.length := by omega
      obtain ⟨b, hb, hfirst⟩ := hplain p.byte le_rfl (by omega)
      have hzero : newlineLength (text.drop p.byte) = 0 := by
        rw [newlineLength_drop hlt]
        rw [List.getElem?_eq_getElem hlt] at hb
        rwa [Option.some.inj hb]
      have hrest : text.drop p.byte ≠ [] := by
        intro hnil
        have := List.drop_eq_nil_iff.mp hnil
        omega
      have hadvance := codepointAdvance_pos hrest
      have hle := codepointAdvance_le hrest
      rw [List.length_drop] at hle
      have hshort : codepointAdvance (text.drop p.byte) ≤ count := by
        by_contra hover
        rcases hend with hpast | hnewline
        · omega
        · have hcontinuation := codepointAdvance_continuation (text.drop p.byte) hpos (not_le.mp hover)
          have hstop : p.byte + count < text.length := by omega
          rw [List.getElem?_drop, List.getElem?_eq_getElem hstop] at hcontinuation
          exact hnewline ((newlineLength_drop hstop).mpr (not_isNewline_of_continuation hcontinuation))
      have hnext : nextPlace text p = ⟨p.byte + codepointAdvance (text.drop p.byte), p.line, p.column + 1⟩ :=
        if_pos hzero
      have hsame : p.byte + codepointAdvance (text.drop p.byte) +
          (count - codepointAdvance (text.drop p.byte)) = p.byte + count := by omega
      obtain ⟨column, hcolumn, hleads⟩ := ih (count - codepointAdvance (text.drop p.byte)) (by omega)
        (hnext ▸ h.next hlt) (by
          rw [hsame]
          exact fun i hfrom hto => hplain i (by dsimp only at hfrom; omega) hto) (by rwa [hsame])
      dsimp only at hcolumn hleads
      rw [hsame] at hleads
      refine ⟨column, by omega, Relation.ReflTransGen.head ⟨hlt, hnext⟩ hleads⟩

/-- The start of a line is a place. -/
theorem reached_lineStart {line start : Nat} (h : lineStart text line = some start) :
    Reached text ⟨start, line, 0⟩ := by
  induction line generalizing start with
  | zero =>
    obtain rfl : 0 = start := Option.some.inj h
    exact Relation.ReflTransGen.refl
  | succ line ih =>
    rw [lineStart] at h
    obtain ⟨before, hbefore, hstart⟩ := Option.bind_eq_some_iff.mp h
    dsimp only at hstart
    split_ifs at hstart with hnone
    obtain rfl := Option.some.inj hstart
    have hreached := ih hbefore
    obtain ⟨column, -, hleads⟩ := hreached.walk (plain_lineContent text before) (lineContent_end text before)
    have hinside : before + lineContent (text.drop before) < text.length := by
      by_contra hpast
      rw [List.drop_of_length_le (not_lt.mp hpast)] at hnone
      exact hnone rfl
    have hlast : Reached text ⟨before + lineContent (text.drop before), line, column⟩ := hreached.trans hleads
    have hnext := hlast.next hinside
    rw [nextPlace, if_neg hnone] at hnext
    exact hnext

/-! ## Boundaries between codepoints -/

/-- Between two codepoints of the text, where both bytes of `\r\n` are codepoints. -/
inductive CodepointBoundary (text : Bytes) : Nat → Prop
  | start : CodepointBoundary text 0
  | next {byte : Nat} : CodepointBoundary text byte → byte < text.length →
      CodepointBoundary text (byte + codepointAdvance (text.drop byte))

def InsideCrlf (text : Bytes) (byte : Nat) : Prop :=
  0 < byte ∧ text[byte - 1]? = some 13 ∧ text[byte]? = some 10

theorem boundary_place {byte : Nat} (h : CodepointBoundary text byte) :
    (∃ line column, Reached text ⟨byte, line, column⟩) ∨
      InsideCrlf text byte ∧ ∃ line column, Reached text ⟨byte - 1, line, column⟩ := by
  induction h with
  | start => exact Or.inl ⟨0, 0, Relation.ReflTransGen.refl⟩
  | @next byte _ hinside ih =>
    have hdrop := List.drop_eq_getElem_cons hinside
    rcases ih with ⟨line, column, hreached⟩ | ⟨⟨hpos, hcr, hlf⟩, line, column, hreached⟩
    · have hnext := hreached.next hinside
      unfold nextPlace at hnext
      dsimp only at hnext
      by_cases hzero : newlineLength (text.drop byte) = 0
      · rw [if_pos hzero] at hnext
        exact Or.inl ⟨_, _, hnext⟩
      · rw [if_neg hzero] at hnext
        have hnewline : isNewline text[byte] = true := by
          rw [newlineLength_drop hinside] at hzero
          simpa using hzero
        have hadvance : codepointAdvance (text.drop byte) = 1 := by
          rw [hdrop]
          refine codepointAdvance_ascii ?_ _
          unfold isNewline at hnewline
          rcases Bool.or_eq_true_iff.mp hnewline with h10 | h13
          · rw [of_decide_eq_true h10]
            decide
          · rw [of_decide_eq_true h13]
            decide
        rw [hadvance]
        rcases newlineLength_cases text byte with hnone | hone | ⟨-, hcr, hlf⟩
        · exact absurd hnone hzero
        · rw [hone] at hnext
          exact Or.inl ⟨_, _, hnext⟩
        · exact Or.inr ⟨⟨Nat.succ_pos byte, hcr, hlf⟩, line, column, hreached⟩
    · have hlf' : text[byte] = 10 := by
        rw [List.getElem?_eq_getElem hinside] at hlf
        exact Option.some.inj hlf
      have hadvance : codepointAdvance (text.drop byte) = 1 := by
        rw [hdrop, hlf']
        exact codepointAdvance_ascii (by decide) _
      have hbefore : byte - 1 < text.length := by omega
      have hpair : newlineLength (text.drop (byte - 1)) = 2 := by
        rw [List.drop_eq_getElem_cons hbefore, newlineLength]
        rw [List.getElem?_eq_getElem hbefore] at hcr
        rw [Option.some.inj hcr, if_neg (by decide), if_pos rfl, List.head?_drop,
          show byte - 1 + 1 = byte by omega, hlf, if_pos rfl]
      have hnext := hreached.next hbefore
      rw [nextPlace] at hnext
      dsimp only at hnext
      rw [hpair, if_neg (by decide), show byte - 1 + 2 = byte + 1 by omega] at hnext
      rw [hadvance]
      exact Or.inl ⟨_, _, hnext⟩

end Space2.LazyTextBuffer
