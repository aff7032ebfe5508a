import Space2.Base.Checks

/-!
# Strings in JSON text

The serializer decodes a string as UTF-8 byte by byte with a table, escapes what has to be escaped
and copies the rest. The table refuses overlong forms, so a code point that is escaped is one byte,
and the text of a string that is accepted is that of its bytes, one after the other. Such a text can
be read back, and a quotation mark ends it.
-/
namespace Space2.StableJson
open Base

abbrev Bytes := List UInt8

/-- The byte types, then the row of each state. -/
def utf8d : List Nat :=
  List.replicate 128 0 ++ List.replicate 16 1 ++ List.replicate 16 9 ++ List.replicate 32 7 ++
  [8, 8] ++ List.replicate 30 2 ++
  [10, 3, 3, 3, 3, 3, 3, 3, 3, 3, 3, 3, 3, 4, 3, 3] ++
  [11, 6, 6, 6, 5, 8, 8, 8, 8, 8, 8, 8, 8, 8, 8, 8] ++
  [0, 1, 2, 3, 5, 8, 7, 1, 1, 1, 4, 6, 1, 1, 1, 1] ++
  [1, 1, 1, 1, 1, 1, 1, 1, 1, 1, 1, 1, 1, 1, 1, 1,
    1, 0, 1, 1, 1, 1, 1, 0, 1, 0, 1, 1, 1, 1, 1, 1] ++
  [1, 2, 1, 1, 1, 1, 1, 2, 1, 2, 1, 1, 1, 1, 1, 1,
    1, 1, 1, 1, 1, 1, 1, 2, 1, 1, 1, 1, 1, 1, 1, 1] ++
  [1, 2, 1, 1, 1, 1, 1, 1, 1, 2, 1, 1, 1, 1, 1, 1,
    1, 1, 1, 1, 1, 1, 1, 3, 1, 3, 1, 1, 1, 1, 1, 1] ++
  [1, 3, 1, 1, 1, 1, 1, 3, 1, 3, 1, 1, 1, 1, 1, 1,
    1, 3, 1, 1, 1, 1, 1, 1, 1, 1, 1, 1, 1, 1, 1, 1]

def byteType (byte : Nat) : Nat := utf8d.getD byte 0

def nextState (state byte : Nat) : Nat := utf8d.getD (256 + state * 16 + byteType byte) 0

def nextCodepoint (state codep byte : Nat) : Nat :=
  if state ≠ 0 then (byte &&& 0x3f) ||| (codep <<< 6) else (0xFF >>> byteType byte) &&& byte

def hexDigit (n : Nat) : UInt8 := if n < 10 then .ofNat (48 + n) else .ofNat (87 + n)

/-- What is written for a code point that ends with this byte. -/
def escape (codep : Nat) (byte : UInt8) : Bytes :=
  if codep = 0x08 then [92, 98]
  else if codep = 0x09 then [92, 116]
  else if codep = 0x0A then [92, 110]
  else if codep = 0x0C then [92, 102]
  else if codep = 0x0D then [92, 114]
  else if codep = 0x22 then [92, 34]
  else if codep = 0x5C then [92, 92]
  else if codep ≤ 0x1F then [92, 117, 48, 48, hexDigit (codep / 16), hexDigit (codep % 16)]
  else [byte]

/-- `dump_escaped` in a state of the decoder. -/
def dumpFrom : Nat → Nat → Bytes → Except String Bytes
  | state, _, [] => if state = 0 then .ok [] else .error "incomplete UTF-8 string"
  | state, codep, byte :: rest =>
    let state' := nextState state byte.toNat
    let codep' := nextCodepoint state codep byte.toNat
    if state' = 1 then .error "invalid UTF-8 byte"
    else
      let text := if state' = 0 then escape codep' byte else [byte]
      (text ++ ·) <$> dumpFrom state' codep' rest

def dumpString (s : Bytes) : Except String Bytes :=
  (fun text => 34 :: text ++ [34]) <$> dumpFrom 0 0 s

/-- The decoder accepts every byte and ends between two code points. -/
def utf8From : Nat → Bytes → Bool
  | state, [] => state = 0
  | state, byte :: rest =>
    nextState state byte.toNat ≠ 1 && utf8From (nextState state byte.toNat) rest

def isUtf8 (s : Bytes) : Bool := utf8From 0 s

/-- The text of a byte, on its own or in a longer code point. -/
def byteText (byte : UInt8) : Bytes := if byte < 128 then escape byte.toNat byte else [byte]

section Decoding
variable {state codep : Nat} {byte : UInt8} {s text : Bytes}

/-- The least code point so far that leads to no overlong form, in each state between two bytes. -/
def leastCodepoint : Nat → Nat
  | 0 | 4 | 6 => 0
  | 2 => 2
  | _ => 1

/-- The least low bits of a byte of that type. -/
def leastRest : Nat → Nat
  | 7 => 32
  | 9 => 16
  | _ => 0

/-- The row of a state, column by column. -/
def row (state type : Nat) : Nat := utf8d.getD (256 + state * 16 + type) 0

/-- The row of the state between two code points. -/
def startState : Nat → Nat
  | 0 => 0
  | 2 => 2
  | 3 => 3
  | 4 => 5
  | 5 => 8
  | 6 => 7
  | 10 => 4
  | 11 => 6
  | _ => 1

theorem start_row : ∀ type < 12, row 0 type = startState type := by
  decide

/-- What the byte types and the rows of the states within a code point say, read along the table. -/
theorem utf8d_table : utf8d.length = 400 ∧
    (∀ entry ∈ (utf8d.take 256).zipIdx,
      entry.1 < 12 ∧ (entry.1 = 0 ↔ entry.2 < 128) ∧ leastRest entry.1 ≤ entry.2 % 64 ∧
        (startState entry.1 ≠ 1 →
          leastCodepoint (startState entry.1) ≤ (0xFF >>> entry.1) &&& entry.2)) ∧
    ∀ entry ∈ (utf8d.drop 288).zipIdx, entry.2 % 16 < 12 → entry.1 ≠ 1 →
      entry.1 < 9 ∧ entry.2 % 16 ≠ 0 ∧ (entry.1 = 0 → entry.2 / 16 = 0) ∧
        leastCodepoint entry.1 ≤
          leastCodepoint (entry.2 / 16 + 2) * 64 + leastRest (entry.2 % 16) := by
  decide +kernel

theorem next_row {type k : Nat} (htype : type < 12) (hk : k < 7) (hnext : row (k + 2) type ≠ 1) :
    row (k + 2) type < 9 ∧ type ≠ 0 ∧ (row (k + 2) type = 0 → k = 0) ∧
      leastCodepoint (row (k + 2) type) ≤ leastCodepoint (k + 2) * 64 + leastRest type := by
  obtain ⟨hlength, -, hrows⟩ := utf8d_table
  have hat : (utf8d.drop 288)[k * 16 + type]? = some (row (k + 2) type) := by
    have hplace : 288 + (k * 16 + type) = 256 + (k + 2) * 16 + type := by omega
    rw [List.getElem?_drop, hplace, row, List.getD_eq_getElem?_getD,
      List.getElem?_eq_getElem (by omega), Option.getD_some]
  have hrow := hrows (row (k + 2) type, k * 16 + type)
    (List.mk_mem_zipIdx_iff_getElem?.mpr hat)
  have hcolumn : (k * 16 + type) % 16 = type := by omega
  have hstate : (k * 16 + type) / 16 = k := by omega
  simp only [hcolumn, hstate] at hrow
  exact hrow htype hnext

theorem byteType_table {byte : Nat} (hbyte : byte < 256) :
    byteType byte < 12 ∧ (byteType byte = 0 ↔ byte < 128) ∧
      leastRest (byteType byte) ≤ byte % 64 ∧ (startState (byteType byte) ≠ 1 →
        leastCodepoint (startState (byteType byte)) ≤ (0xFF >>> byteType byte) &&& byte) := by
  obtain ⟨hlength, htypes, -⟩ := utf8d_table
  have hat : utf8d[byte]? = some (byteType byte) := by
    rw [byteType, List.getD_eq_getElem?_getD, List.getElem?_eq_getElem (by omega), Option.getD_some]
  refine htypes (byteType byte, byte) (List.mk_mem_zipIdx_iff_getElem?.mpr ?_)
  rw [List.getElem?_take_of_lt hbyte, hat]

theorem startState_spec : ∀ type < 12, startState type < 9 ∧ (startState type = 0 ↔ type = 0) := by
  decide

/-- A byte that starts a code point. -/
theorem start_table {byte : Nat} (hbyte : byte < 256) (hnext : nextState 0 byte ≠ 1) :
    nextState 0 byte < 9 ∧ (nextState 0 byte = 0 ↔ byte < 128) ∧
      (byte < 128 → nextCodepoint 0 0 byte = byte) ∧
        leastCodepoint (nextState 0 byte) ≤ nextCodepoint 0 0 byte := by
  obtain ⟨htype, hzero, -, hleast⟩ := byteType_table hbyte
  have hstate : nextState 0 byte = startState (byteType byte) := start_row _ htype
  rw [hstate] at hnext ⊢
  obtain ⟨hlt, hends⟩ := startState_spec _ htype
  refine ⟨hlt, hends.trans hzero, fun hsmall => ?_, hleast hnext⟩
  have hall : 255 &&& byte = byte % 2 ^ 8 := by
    rw [Nat.and_comm]
    exact Nat.and_two_pow_sub_one_eq_mod byte 8
  rw [nextCodepoint, if_neg (not_not.mpr rfl), hzero.mpr hsmall]
  exact hall.trans (Nat.mod_eq_of_lt hbyte)

/-- A byte that goes on with one. -/
theorem next_table {byte k : Nat} (hbyte : byte < 256) (hk : k < 7)
    (hnext : nextState (k + 2) byte ≠ 1) :
    nextState (k + 2) byte < 9 ∧ 128 ≤ byte ∧ (nextState (k + 2) byte = 0 → k = 0) ∧
      leastCodepoint (nextState (k + 2) byte) ≤ leastCodepoint (k + 2) * 64 + byte % 64 := by
  obtain ⟨htype, hzero, hrest, -⟩ := byteType_table hbyte
  obtain ⟨hlt, hlarge, hends, hleast⟩ := next_row htype hk hnext
  refine ⟨hlt, ?_, hends, hleast.trans (Nat.add_le_add_left hrest _)⟩
  rw [ne_eq, hzero] at hlarge
  exact Nat.not_lt.mp hlarge

theorem nextCodepoint_eq (h : state ≠ 0) (codep byte : Nat) :
    nextCodepoint state codep byte = codep * 64 + byte % 64 := by
  have hmod : byte &&& 0x3f = byte % 64 := Nat.and_two_pow_sub_one_eq_mod byte 6
  have hlt : byte % 64 < 2 ^ 6 := Nat.mod_lt byte (by decide)
  rw [nextCodepoint, if_pos h, hmod, Nat.or_comm, ← Nat.shiftLeft_add_eq_or_of_lt hlt,
    Nat.shiftLeft_eq]

/-- Where the decoder stands between two bytes: not refused, and with no overlong form begun. -/
structure Underway (state codep : Nat) : Prop where
  lt : state < 9
  ne_one : state ≠ 1
  least : leastCodepoint state ≤ codep

theorem Underway.next (h : Underway state codep) (hnext : nextState state byte.toNat ≠ 1) :
    Underway (nextState state byte.toNat) (nextCodepoint state codep byte.toNat) := by
  have hbyte : byte.toNat < 256 := byte.toNat_lt
  by_cases hstart : state = 0
  · subst hstart
    obtain ⟨hlt, -, -, hleast⟩ := start_table hbyte hnext
    exact ⟨hlt, hnext, hleast⟩
  · have hne := h.ne_one
    obtain ⟨k, rfl⟩ : ∃ k, state = k + 2 := ⟨state - 2, by omega⟩
    have hk := h.lt
    obtain ⟨hlt, -, -, hleast⟩ := next_table hbyte (by omega : k < 7) hnext
    refine ⟨hlt, hnext, ?_⟩
    rw [nextCodepoint_eq hstart]
    have hbefore := h.least
    omega

/-- What is written for a byte does not depend on the bytes before it. -/
theorem Underway.written (h : Underway state codep) (hnext : nextState state byte.toNat ≠ 1) :
    (if nextState state byte.toNat = 0 then escape (nextCodepoint state codep byte.toNat) byte
      else [byte]) = byteText byte := by
  have hbyte : byte.toNat < 256 := byte.toNat_lt
  have hascii : byte < 128 ↔ byte.toNat < 128 := UInt8.lt_iff_toNat_lt
  rw [byteText]
  by_cases hstart : state = 0
  · subst hstart
    obtain ⟨-, hzero, hcodep, -⟩ := start_table hbyte hnext
    have hsame : nextCodepoint 0 codep byte.toNat = nextCodepoint 0 0 byte.toNat := rfl
    simp only [hzero, hascii, hsame]
    split_ifs with hsmall
    · rw [hcodep hsmall]
    · rfl
  · have hne := h.ne_one
    obtain ⟨k, rfl⟩ : ∃ k, state = k + 2 := ⟨state - 2, by omega⟩
    have hk := h.lt
    obtain ⟨-, hlarge, htwo, -⟩ := next_table hbyte (by omega : k < 7) hnext
    have hnot : ¬ byte < 128 := by rw [hascii]; omega
    rw [if_neg hnot]
    by_cases hzero : nextState (k + 2) byte.toNat = 0
    · rw [if_pos hzero]
      have hleast := h.least
      rw [htwo hzero] at hleast
      change 2 ≤ codep at hleast
      rw [nextCodepoint_eq hstart]
      simp only [escape]
      repeat rw [if_neg (by omega)]
    · rw [if_neg hzero]

/-- A string that is accepted is written byte by byte. -/
theorem Underway.dumpFrom (h : Underway state codep) :
    StableJson.dumpFrom state codep s = .ok text ↔
      utf8From state s = true ∧ text = s.flatMap byteText := by
  induction s generalizing state codep text with
  | nil =>
    by_cases hzero : state = 0 <;> simp [StableJson.dumpFrom, utf8From, hzero, eq_comm]
  | cons byte s ih =>
    simp only [StableJson.dumpFrom, utf8From]
    by_cases hnext : nextState state byte.toNat = 1
    · simp [hnext]
    · rw [if_neg hnext, map_eq_ok, h.written hnext]
      simp only [ih (h.next hnext), List.flatMap_cons, ne_eq, hnext, not_false_eq_true, decide_true,
        Bool.true_and]
      constructor
      · rintro ⟨_, ⟨hvalid, rfl⟩, rfl⟩
        exact ⟨hvalid, rfl⟩
      · rintro ⟨hvalid, rfl⟩
        exact ⟨_, ⟨hvalid, rfl⟩, rfl⟩

theorem dumpString_eq_ok :
    dumpString s = .ok text ↔ isUtf8 s = true ∧ text = 34 :: s.flatMap byteText ++ [34] := by
  have hstart : Underway 0 0 := ⟨by decide, by decide, Nat.le_refl 0⟩
  simp only [dumpString, map_eq_ok, hstart.dumpFrom, isUtf8]
  constructor
  · rintro ⟨_, ⟨hvalid, rfl⟩, rfl⟩
    exact ⟨hvalid, rfl⟩
  · rintro ⟨hvalid, rfl⟩
    exact ⟨_, ⟨hvalid, rfl⟩, rfl⟩

end Decoding

section Reading

def hexValue (c : UInt8) : Nat := if c < 58 then c.toNat - 48 else c.toNat - 87

/-- The byte at the front of a string's text; a quotation mark ends the text. -/
def readByte : Bytes → Option (UInt8 × Bytes)
  | [] => none
  | 34 :: _ => none
  | 92 :: 98 :: rest => some (8, rest)
  | 92 :: 116 :: rest => some (9, rest)
  | 92 :: 110 :: rest => some (10, rest)
  | 92 :: 102 :: rest => some (12, rest)
  | 92 :: 114 :: rest => some (13, rest)
  | 92 :: 34 :: rest => some (34, rest)
  | 92 :: 92 :: rest => some (92, rest)
  | 92 :: 117 :: _ :: _ :: high :: low :: rest =>
    some (.ofNat (hexValue high * 16 + hexValue low), rest)
  | byte :: rest => some (byte, rest)

theorem readByte_plain {byte : UInt8} (hquote : byte ≠ 34) (hslash : byte ≠ 92) (rest : Bytes) :
    readByte (byte :: rest) = some (byte, rest) := by
  simp [readByte, hslash]

theorem byteText_plain {byte : UInt8} (hlarge : 32 ≤ byte) (hquote : byte ≠ 34)
    (hslash : byte ≠ 92) : byteText byte = [byte] := by
  have h32 := UInt8.le_iff_toNat_le.mp hlarge
  have h34 : byte.toNat ≠ 34 := fun h => hquote (UInt8.toNat_inj.mp h)
  have h92 : byte.toNat ≠ 92 := fun h => hslash (UInt8.toNat_inj.mp h)
  change 32 ≤ byte.toNat at h32
  simp only [byteText, escape, ite_eq_right_iff]
  intro _
  repeat rw [if_neg (by omega)]

theorem readByte_small : ∀ n < 32, ∀ rest : Bytes,
    readByte (byteText (.ofNat n) ++ rest) = some (.ofNat n, rest) := by
  intro n hn rest
  interval_cases n <;> rfl

theorem readByte_byteText (byte : UInt8) (rest : Bytes) :
    readByte (byteText byte ++ rest) = some (byte, rest) := by
  by_cases hquote : byte = 34
  · subst hquote
    rfl
  by_cases hslash : byte = 92
  · subst hslash
    rfl
  by_cases hlarge : 32 ≤ byte
  · rw [byteText_plain hlarge hquote hslash]
    exact readByte_plain hquote hslash rest
  · have hsmall : byte.toNat < 32 := UInt8.lt_iff_toNat_lt.mp (UInt8.not_le.mp hlarge)
    simpa using readByte_small byte.toNat hsmall rest

theorem readByte_quote (rest : Bytes) : readByte (34 :: rest) = none := rfl

/-- The text of a string ends where its quotation mark stands, and it says which string it is. -/
theorem quoted_inj {s s' r r' : Bytes}
    (h : s.flatMap byteText ++ 34 :: r = s'.flatMap byteText ++ 34 :: r') : s = s' ∧ r = r' := by
  induction s generalizing s' with
  | nil =>
    cases s' with
    | nil => simpa using h
    | cons byte' s' =>
      have hread := congrArg readByte h
      simp [readByte_byteText, readByte_quote] at hread
  | cons byte s ih =>
    cases s' with
    | nil =>
      have hread := congrArg readByte h
      simp [readByte_byteText, readByte_quote] at hread
    | cons byte' s' =>
      have hread := congrArg readByte h
      simp only [List.flatMap_cons, List.append_assoc, readByte_byteText, Option.some.injEq,
        Prod.mk.injEq] at hread
      obtain ⟨rfl, hrest⟩ := hread
      obtain ⟨rfl, rfl⟩ := ih hrest
      exact ⟨rfl, rfl⟩

end Reading

end Space2.StableJson
