import Space2.QrCode.ReedSolomon

/-!
# Reading the codewords back

The padded payload fills the capacity, the blocks share it out, and the bits that
are written have the padded payload at the known places of the blocks.
-/
namespace Space2.QrCode

open Space2.Base

/-! ## Bits and bytes -/

def byteBits (byte : Nat) : List Nat := appendBits [] byte 8

def bitsValue (bits : List Nat) : Nat := bits.foldl (fun value bit => value * 2 + bit) 0

theorem length_appendBits (buffer : List Nat) (value bitCount : Nat) :
    (appendBits buffer value bitCount).length = buffer.length + bitCount := by
  rw [appendBits, List.length_append, List.length_map, List.length_reverse, List.length_range]

theorem appendBits_append (buffer : List Nat) (value bitCount : Nat) :
    appendBits buffer value bitCount = buffer ++ appendBits [] value bitCount := by
  unfold appendBits
  rw [List.nil_append]

theorem appendBits_lt (value bitCount : Nat) : ∀ bit ∈ appendBits [] value bitCount, bit < 2 := by
  intro bit hbit
  rw [appendBits_eq, List.nil_append] at hbit
  obtain ⟨i, -, rfl⟩ := List.mem_map.mp hbit
  exact Nat.mod_lt _ (by decide)

theorem foldl_appendBits (l bits : List Nat) :
    l.foldl (fun bits byte => appendBits bits byte 8) bits = bits ++ l.flatMap byteBits := by
  induction l generalizing bits with
  | nil => exact (List.append_nil bits).symm
  | cons byte l ih =>
    rw [List.foldl_cons, ih, appendBits_append, List.append_assoc]
    rfl

theorem appendBits_succ (value bitCount : Nat) :
    appendBits [] value (bitCount + 1) = appendBits [] (value / 2) bitCount ++ [value % 2] := by
  have hshift : (fun i => value / 2 ^ i % 2) ∘ Nat.succ = fun i => value / 2 / 2 ^ i % 2 := by
    funext i
    rw [Function.comp_apply, Nat.pow_succ', Nat.div_div_eq_div_mul]
  rw [appendBits_eq, appendBits_eq, List.nil_append, List.nil_append, List.range_succ_eq_map,
    List.reverse_cons, ← List.map_reverse, List.map_append, List.map_map, hshift, List.map_singleton,
    Nat.pow_zero, Nat.div_one]

/-- The low bits of a value read back. -/
theorem bitsValue_appendBits (value bitCount : Nat) :
    bitsValue (appendBits [] value bitCount) = value % 2 ^ bitCount := by
  induction bitCount generalizing value with
  | zero => exact (Nat.mod_one value).symm
  | succ bitCount ih =>
    have hlast : bitsValue (appendBits [] (value / 2) bitCount ++ [value % 2]) =
        bitsValue (appendBits [] (value / 2) bitCount) * 2 + value % 2 := by
      rw [bitsValue, List.foldl_append]
      rfl
    rw [appendBits_succ, hlast, ih, Nat.pow_succ', Nat.mod_mul, Nat.mul_comm, Nat.add_comm]

theorem bitsValue_byteBits {byte : Nat} (h : byte < 256) : bitsValue (byteBits byte) = byte :=
  (bitsValue_appendBits byte 8).trans (Nat.mod_eq_of_lt h)

theorem bitsValue_lt (bits : List Nat) (h : ∀ bit ∈ bits, bit < 2) : bitsValue bits < 2 ^ bits.length := by
  induction bits using List.reverseRecOn with
  | nil => exact Nat.zero_lt_one
  | append_singleton bits bit ih =>
    have hbit := h bit (List.mem_append_right bits (List.mem_singleton_self bit))
    have hearlier := ih fun other hother => h other (List.mem_append_left [bit] hother)
    rw [bitsValue, List.foldl_append, List.length_append, List.length_singleton, Nat.pow_succ]
    change bitsValue bits * 2 + bit < _
    omega

theorem toCodewords_short {bits : List Nat} (h : bits.length < 8) : toCodewords bits = [] := by
  rw [toCodewords, Nat.div_eq_of_lt h]
  rfl

theorem toCodewords_cons (byte : List Nat) (hbyte : byte.length = 8) (bits : List Nat) :
    toCodewords (byte ++ bits) = bitsValue byte :: toCodewords bits := by
  have hcount : (byte ++ bits).length / 8 = bits.length / 8 + 1 := by
    rw [List.length_append, hbyte]
    omega
  rw [toCodewords, hcount, List.range_succ_eq_map, List.map_cons, List.map_map]
  congr 1
  · rw [Nat.mul_zero, List.drop_zero, List.take_append_of_le_length hbyte.ge, ← hbyte, List.take_length]
    rfl
  · refine List.map_congr_left fun i _ => ?_
    have hlater : 8 * (i + 1) = byte.length + 8 * i := by omega
    change List.foldl _ 0 (((byte ++ bits).drop (8 * (i + 1))).take 8) = _
    rw [hlater, ← List.drop_drop, List.drop_left]

/-- The bytes come back from their bits; a rest below eight bits is not read. -/
theorem toCodewords_flatMap {l rest : List Nat} (h : ∀ byte ∈ l, byte < 256) (hrest : rest.length < 8) :
    toCodewords (l.flatMap byteBits ++ rest) = l := by
  induction l with
  | nil => exact toCodewords_short hrest
  | cons byte l ih =>
    rw [List.forall_mem_cons] at h
    rw [List.flatMap_cons, List.append_assoc, toCodewords_cons (byteBits byte) (length_appendBits [] byte 8),
      bitsValue_byteBits h.1, ih h.2]

theorem length_toCodewords (bits : List Nat) : (toCodewords bits).length = bits.length / 8 := by
  rw [toCodewords, List.length_map, List.length_range]

theorem toCodewords_lt {bits : List Nat} (h : ∀ bit ∈ bits, bit < 2) : ∀ byte ∈ toCodewords bits, byte < 256 := by
  intro byte hbyte
  obtain ⟨i, -, rfl⟩ := List.mem_map.mp hbyte
  have hvalue := bitsValue_lt ((bits.drop (8 * i)).take 8) fun bit hbit =>
    h bit (List.mem_of_mem_drop (List.mem_of_mem_take hbit))
  have hlength : ((bits.drop (8 * i)).take 8).length ≤ 8 := List.length_take_le 8 _
  exact hvalue.trans_le (Nat.pow_le_pow_right Nat.two_pos hlength)

/-! ## Padding -/

theorem align_spec (missing : Nat) (bits : List Nat) (h : (8 - bits.length % 8) % 8 ≤ missing) :
    align missing bits = bits ++ List.replicate ((8 - bits.length % 8) % 8) 0 := by
  induction missing generalizing bits with
  | zero =>
    rw [Nat.le_zero.mp h]
    exact (List.append_nil bits).symm
  | succ missing ih =>
    rw [align]
    split_ifs with hpart
    · have hless : (8 - (bits ++ [0]).length % 8) % 8 + 1 = (8 - bits.length % 8) % 8 := by
        rw [List.length_append, List.length_singleton]
        omega
      rw [ih _ (by omega), ← hless, List.replicate_succ, List.append_assoc]
      rfl
    · have hzero : (8 - bits.length % 8) % 8 = 0 := by omega
      rw [hzero]
      exact (List.append_nil bits).symm

theorem padTo_spec (capacity missing : Nat) (second : Bool) {whole : Nat} {bits : List Nat}
    (hlength : bits.length = 8 * whole) (hwhole : whole ≤ capacity) (hmissing : capacity - whole ≤ missing) :
    ∃ more, padTo capacity missing second bits = bits ++ more ∧
      bits.length + more.length = 8 * capacity ∧ ∀ bit ∈ more, bit < 2 := by
  induction missing generalizing whole bits second with
  | zero =>
    refine ⟨[], (List.append_nil bits).symm, ?_, fun bit h => absurd h List.not_mem_nil⟩
    rw [List.length_nil]
    omega
  | succ missing ih =>
    rw [padTo]
    by_cases hless : bits.length / 8 < capacity
    · rw [if_pos hless]
      have hnext : (appendBits bits (if second = true then 0x11 else 0xec) 8).length = 8 * (whole + 1) := by
        rw [length_appendBits]
        omega
      obtain ⟨more, hpad, htotal, hbits⟩ := ih (!second) hnext (by omega) (by omega)
      refine ⟨byteBits (if second = true then 0x11 else 0xec) ++ more, ?_, ?_, ?_⟩
      · rw [hpad, appendBits_append, List.append_assoc]
        rfl
      · rw [length_appendBits] at htotal
        rw [List.length_append, byteBits, length_appendBits, List.length_nil]
        omega
      · intro bit hbit
        rcases List.mem_append.mp hbit with hbyte | hmore
        · exact appendBits_lt _ 8 bit hbyte
        · exact hbits bit hmore
    · rw [if_neg hless]
      refine ⟨[], (List.append_nil bits).symm, ?_, fun bit h => absurd h List.not_mem_nil⟩
      rw [List.length_nil]
      omega

theorem paddedBits_spec {payloadBits : List Nat} {version ecc : Nat}
    (hfits : payloadBits.length ≤ 8 * getDataCapacity version ecc) (hbits : ∀ bit ∈ payloadBits, bit < 2) :
    payloadBits <+: paddedBits payloadBits version ecc ∧
      (paddedBits payloadBits version ecc).length = 8 * getDataCapacity version ecc ∧
      ∀ bit ∈ paddedBits payloadBits version ecc, bit < 2 := by
  set capacity := getDataCapacity version ecc with hcapacity
  set terminated := payloadBits ++
    List.replicate (min 4 (capacity * 8 - payloadBits.length)) 0 with hterminated
  have hlength : terminated.length = payloadBits.length + min 4 (capacity * 8 - payloadBits.length) := by
    rw [hterminated, List.length_append, List.length_replicate]
  have halign := align_spec 7 terminated (by omega)
  set zeros := (8 - terminated.length % 8) % 8 with hzeros
  have haligned : (align 7 terminated).length = 8 * ((terminated.length + zeros) / 8) := by
    rw [halign, List.length_append, List.length_replicate]
    omega
  obtain ⟨more, hpad, htotal, hmore⟩ := padTo_spec capacity capacity false haligned
    (by omega) (by omega)
  have hpadded : paddedBits payloadBits version ecc = align 7 terminated ++ more := hpad
  refine ⟨?_, ?_, ?_⟩
  · rw [hpadded, halign, hterminated, List.append_assoc, List.append_assoc]
    exact List.prefix_append _ _
  · rw [hpadded, List.length_append, htotal]
  · rw [hpadded, halign, hterminated]
    intro bit hbit
    rcases List.mem_append.mp hbit with hbit | hbit
    · rcases List.mem_append.mp hbit with hbit | hbit
      · rcases List.mem_append.mp hbit with hbit | hbit
        · exact hbits bit hbit
        · rw [List.eq_of_mem_replicate hbit]
          exact Nat.two_pos
      · rw [List.eq_of_mem_replicate hbit]
        exact Nat.two_pos
    · exact hmore bit hbit

/-! ## Blocks -/

/-- Every block has at least one codeword of each kind, and the blocks share out all of them. -/
theorem blocks_share {version ecc : Nat} (hversion : version ∈ List.range' 1 40) (hecc : ecc ∈ List.range' 1 4) :
    0 < getNumBlocks version ecc ∧ 0 < getEccCodewordsPerBlock version ecc ∧
      tableEntry eccCodewordsPerBlock version ecc =
        getNumBlocks version ecc * getEccCodewordsPerBlock version ecc ∧
      getEccCodewordsPerBlock version ecc ≤ shortBlockLen version ecc := by
  have hall : ∀ version ∈ List.range' 1 40, ∀ ecc ∈ List.range' 1 4,
      0 < getNumBlocks version ecc ∧ 0 < getEccCodewordsPerBlock version ecc ∧
        tableEntry eccCodewordsPerBlock version ecc =
          getNumBlocks version ecc * getEccCodewordsPerBlock version ecc ∧
        getEccCodewordsPerBlock version ecc ≤ shortBlockLen version ecc := by
    decide +kernel
  exact hall version hversion ecc hecc

theorem sum_lens (short count long : Nat) :
    ((List.range count).map fun block => if block + 1 ≤ short then long else long + 1).sum =
      count * long + (count - short) := by
  induction count with
  | zero => simp
  | succ count ih =>
    rw [List.range_succ, List.map_append, List.sum_append, ih, List.map_singleton, List.sum_singleton,
      Nat.succ_mul]
    split_ifs <;> omega

/-- The data blocks share out the capacity. -/
theorem dataLens_sum {version ecc : Nat} (hversion : version ∈ List.range' 1 40)
    (hecc : ecc ∈ List.range' 1 4) :
    (dataLens version ecc).sum = getDataCapacity version ecc ∧
      getDataCapacity version ecc + getNumBlocks version ecc * getEccCodewordsPerBlock version ecc =
        totalCodewords version := by
  obtain ⟨hblocks, -, htable, hshort⟩ := blocks_share hversion hecc
  have hdivision := Nat.div_add_mod (totalCodewords version) (getNumBlocks version ecc)
  have hrest := Nat.mod_lt (totalCodewords version) hblocks
  have hdata : getNumBlocks version ecc * shortDataLen version ecc +
      getNumBlocks version ecc * getEccCodewordsPerBlock version ecc =
        getNumBlocks version ecc * shortBlockLen version ecc := by
    rw [← Nat.mul_add, shortDataLen, Nat.sub_add_cancel hshort]
  have hsum := sum_lens (numShortBlocks version ecc) (getNumBlocks version ecc) (shortDataLen version ecc)
  change (dataLens version ecc).sum = _ at hsum
  change getNumBlocks version ecc * shortBlockLen version ecc + _ = _ at hdivision
  rw [hsum, getDataCapacity, htable, numShortBlocks]
  omega

theorem splitBlocks_spec {lens l : List Nat} (h : lens.sum = l.length) :
    (splitBlocks lens l).flatten = l ∧ (splitBlocks lens l).map List.length = lens := by
  induction lens generalizing l with
  | nil =>
    rw [List.length_eq_zero_iff.mp h.symm]
    exact ⟨rfl, rfl⟩
  | cons len lens ih =>
    rw [List.sum_cons] at h
    obtain ⟨hflatten, hlens⟩ := @ih (l.drop len) (by rw [List.length_drop]; omega)
    rw [splitBlocks]
    refine ⟨?_, ?_⟩
    · rw [List.flatten_cons, hflatten, List.take_append_drop]
    · rw [List.map_cons, hlens, List.length_take, Nat.min_eq_left (by omega)]

/-- Data with its error correction. -/
structure IsCodeword (degree : Nat) (block full : List Nat) : Prop where
  starts : block <+: full
  length_eq : full.length = block.length + degree
  zero : ∀ i < degree, value (gf 2 ^ i) full = 0
  bytes : (∀ byte ∈ block, byte < 256) → ∀ byte ∈ full, byte < 256

theorem withEcc_spec {degree : Nat} (hdegree : degree ≠ 0) (block : List Nat) :
    ∃ full, withEcc (reedSolomonDivisor degree) block = some full ∧ IsCodeword degree block full := by
  obtain ⟨remainder, hrun, hlength, hzero⟩ := codeword_zero hdegree block
  refine ⟨block ++ remainder, ?_, List.prefix_append _ _, ?_, hzero, fun hblock byte hbyte => ?_⟩
  · rw [withEcc, hrun]
    rfl
  · rw [List.length_append, hlength]
  · rcases List.mem_append.mp hbyte with hdata | hecc
    · exact hblock byte hdata
    · exact remainder_lt (divisor_lt degree) hrun byte hecc

theorem mapM_withEcc {degree : Nat} (hdegree : degree ≠ 0) (blocks : List (List Nat)) :
    ∃ fulls, blocks.mapM (withEcc (reedSolomonDivisor degree)) = some fulls ∧
      List.Forall₂ (IsCodeword degree) blocks fulls := by
  induction blocks with
  | nil => exact ⟨[], rfl, List.Forall₂.nil⟩
  | cons block blocks ih =>
    obtain ⟨fulls, hfulls, hall⟩ := ih
    obtain ⟨full, hfull, hcodeword⟩ := withEcc_spec hdegree block
    refine ⟨full :: fulls, ?_, List.Forall₂.cons hcodeword hall⟩
    rw [List.mapM_cons, hfull, hfulls]
    rfl

/-! ## Reading back -/

/-- The lengths of the blocks with their error correction. -/
def blockSizes (version ecc : Nat) : List Nat :=
  (dataLens version ecc).map (· + getEccCodewordsPerBlock version ecc)

/-- The data of the blocks, one after the other. -/
def blockData (version ecc : Nat) (blocks : List (List Nat)) : List Nat :=
  (List.zipWith List.take (dataLens version ecc) blocks).flatten

theorem blockData_fulls {degree : Nat} {blocks fulls : List (List Nat)}
    (h : List.Forall₂ (IsCodeword degree) blocks fulls) :
    List.zipWith List.take (blocks.map List.length) fulls = blocks ∧
      fulls.map List.length = (blocks.map List.length).map (· + degree) := by
  induction h with
  | nil => exact ⟨rfl, rfl⟩
  | cons hfull _ ih =>
    obtain ⟨hdata, hlengths⟩ := ih
    refine ⟨?_, ?_⟩
    · rw [List.map_cons, List.zipWith_cons_cons, hdata, ← List.prefix_iff_eq_take.mp hfull.starts]
    · rw [List.map_cons, List.map_cons, List.map_cons, hlengths, hfull.length_eq]

theorem exists_of_mem_fulls {degree : Nat} {blocks fulls : List (List Nat)}
    (h : List.Forall₂ (IsCodeword degree) blocks fulls) {full : List Nat} (hfull : full ∈ fulls) :
    ∃ block ∈ blocks, IsCodeword degree block full := by
  induction h with
  | nil => cases hfull
  | @cons block first blocks fulls hfirst _ ih =>
    rcases List.mem_cons.mp hfull with rfl | hlater
    · exact ⟨block, List.mem_cons_self, hfirst⟩
    · obtain ⟨other, hother, hcodeword⟩ := ih hlater
      exact ⟨other, List.mem_cons_of_mem block hother, hcodeword⟩

theorem sum_add_each (l : List Nat) (n : Nat) : (l.map (· + n)).sum = l.sum + l.length * n := by
  rw [List.sum_map_add, List.map_id', List.map_const', List.sum_replicate, smul_eq_mul]

theorem codewords_eq {payloadBits : List Nat} {version ecc : Nat} (hversion : version ∈ List.range' 1 40)
    (hecc : ecc ∈ List.range' 1 4) (hbits : ∀ bit ∈ payloadBits, bit < 2)
    (hfits : payloadBits.length ≤ 8 * getDataCapacity version ecc) :
    ∃ fulls, encodeCodewords payloadBits version ecc = some
        ((interleave fulls).flatMap byteBits ++ List.replicate (getNumRawDataModules version % 8) 0) ∧
      fulls.map List.length = blockSizes version ecc ∧
      blockData version ecc fulls = toCodewords (paddedBits payloadBits version ecc) ∧
      (∀ full ∈ fulls, ∀ i < getEccCodewordsPerBlock version ecc, value (gf 2 ^ i) full = 0) ∧
      ∀ full ∈ fulls, ∀ byte ∈ full, byte < 256 := by
  obtain ⟨-, hdegree, -, -⟩ := blocks_share hversion hecc
  obtain ⟨-, hpadded, hpaddedBits⟩ := paddedBits_spec hfits hbits
  set codewords := toCodewords (paddedBits payloadBits version ecc) with hcodewords
  have hcount : (dataLens version ecc).sum = codewords.length := by
    rw [hcodewords, length_toCodewords, hpadded, (dataLens_sum hversion hecc).1]
    omega
  obtain ⟨hflatten, hlens⟩ := splitBlocks_spec hcount
  obtain ⟨fulls, hrun, hall⟩ := mapM_withEcc hdegree.ne' (splitBlocks (dataLens version ecc) codewords)
  obtain ⟨hdata, hlengths⟩ := blockData_fulls hall
  rw [hlens] at hdata hlengths
  refine ⟨fulls, ?_, hlengths, ?_, ?_, ?_⟩
  · rw [encodeCodewords, ← hcodewords, hrun]
    exact congrArg some (congrArg (· ++ _) (foldl_appendBits (interleave fulls) []))
  · rw [blockData, hdata, hflatten]
  · intro full hfull
    obtain ⟨block, -, hcodeword⟩ := exists_of_mem_fulls hall hfull
    exact hcodeword.zero
  · intro full hfull
    obtain ⟨block, hblock, hcodeword⟩ := exists_of_mem_fulls hall hfull
    refine hcodeword.bytes fun byte hbyte => toCodewords_lt hpaddedBits byte ?_
    rw [← hcodewords, ← hflatten]
    exact List.mem_flatten_of_mem hblock hbyte

/-- A divisor of degree zero leaves no register, and the first byte of the data raises. -/
theorem not_every_degree : ¬ ∀ data : List Nat, ∀ degree, (∀ byte ∈ data, byte < 256) →
    ∃ remainder, reedSolomonRemainder data (reedSolomonDivisor degree) = some remainder ∧
      ∀ i < degree, value (gf 2 ^ i) (data ++ remainder) = 0 := by
  intro h
  obtain ⟨remainder, hrun, -⟩ := h [1] 0 (by decide)
  cases hrun

/-- Data with its remainder is zero at the powers of two below the degree, and the bits of a
payload that fits fill the modules and give back the padded payload, block by block. -/
theorem codewords_read_back :
    (∀ data : List Nat, ∀ degree, degree ≠ 0 →
      ∃ remainder, reedSolomonRemainder data (reedSolomonDivisor degree) = some remainder ∧
        remainder.length = degree ∧ ∀ i < degree, value (gf 2 ^ i) (data ++ remainder) = 0) ∧
    ∀ version ecc : Nat, 1 ≤ version → version ≤ 40 → 1 ≤ ecc → ecc ≤ 4 → ∀ payloadBits : List Nat,
      (∀ bit ∈ payloadBits, bit < 2) → payloadBits.length ≤ 8 * getDataCapacity version ecc →
      payloadBits <+: paddedBits payloadBits version ecc ∧
        (paddedBits payloadBits version ecc).length = 8 * getDataCapacity version ecc ∧
        ∃ bits, encodeCodewords payloadBits version ecc = some bits ∧
          bits.length = getNumRawDataModules version ∧
          blockData version ecc (deinterleave (blockSizes version ecc) (toCodewords bits)) =
            toCodewords (paddedBits payloadBits version ecc) ∧
          ∀ block ∈ deinterleave (blockSizes version ecc) (toCodewords bits),
            ∀ i < getEccCodewordsPerBlock version ecc, value (gf 2 ^ i) block = 0 := by
  refine ⟨fun data degree hdegree => codeword_zero hdegree data, ?_⟩
  intro version ecc hfirst hlast hlow hhigh payloadBits hbits hfits
  have hversion : version ∈ List.range' 1 40 := List.mem_range'_1.mpr ⟨hfirst, by omega⟩
  have hecc : ecc ∈ List.range' 1 4 := List.mem_range'_1.mpr ⟨hlow, by omega⟩
  obtain ⟨hbegins, hpadded, -⟩ := paddedBits_spec hfits hbits
  obtain ⟨fulls, hrun, hsizes, hdata, hzero, hbytes⟩ := codewords_eq hversion hecc hbits hfits
  have hwritten : ∀ byte ∈ interleave fulls, byte < 256 := by
    intro byte hbyte
    obtain ⟨i, -, hcolumn⟩ := List.mem_flatMap.mp hbyte
    obtain ⟨full, hfull, hplace⟩ := List.mem_filterMap.mp hcolumn
    exact hbytes full hfull byte (List.mem_of_getElem? hplace)
  have hread : toCodewords ((interleave fulls).flatMap byteBits ++
      List.replicate (getNumRawDataModules version % 8) 0) = interleave fulls := by
    refine toCodewords_flatMap hwritten ?_
    rw [List.length_replicate]
    exact Nat.mod_lt _ (by decide)
  have hcount : (interleave fulls).length = totalCodewords version := by
    obtain ⟨hsum, htotal⟩ := dataLens_sum hversion hecc
    have hlens : (dataLens version ecc).length = getNumBlocks version ecc := by
      rw [dataLens, List.length_map, List.length_range]
    rw [length_interleave, hsizes, blockSizes, sum_add_each, hsum, hlens, htotal]
  refine ⟨hbegins, hpadded, _, hrun, ?_, ?_, ?_⟩
  · have height : ∀ byte ∈ interleave fulls, (byteBits byte).length = 8 := fun byte _ =>
      length_appendBits [] byte 8
    rw [List.length_append, List.length_replicate, List.length_flatMap, List.map_congr_left height,
      List.map_const', List.sum_replicate, smul_eq_mul, hcount, totalCodewords]
    omega
  · rw [hread, ← hsizes, deinterleave_interleave, hdata]
  · rw [hread, ← hsizes, deinterleave_interleave]
    exact hzero

theorem codewords_read_back_short :
    (∃ remainder, reedSolomonRemainder [0x40] (reedSolomonDivisor 2) = some remainder ∧
      remainder.length = 2 ∧ ∀ i < 2, value (gf 2 ^ i) ([0x40] ++ remainder) = 0) ∧
    ∃ bits, encodeCodewords [0, 1, 0, 0] 1 1 = some bits ∧ bits.length = getNumRawDataModules 1 := by
  refine ⟨codewords_read_back.1 [0x40] 2 (by decide), ?_⟩
  obtain ⟨-, -, bits, hrun, hlength, -⟩ := codewords_read_back.2 1 1 (by decide) (by decide) (by decide)
    (by decide) [0, 1, 0, 0] (by decide) (by decide)
  exact ⟨bits, hrun, hlength⟩

end Space2.QrCode
