import Space2.Base.Relaxation
import Space2.QrCode.GaloisField
import Space2.QrCode.Layout

/-!
# Segments

A string is cut into segments of three modes. The cheapest cut is found forward: from
every place that is reached, every mode is tried as far as its bytes and its count go.
-/
namespace Space2.QrCode

open Space2.Base

inductive Mode where
  | numeric
  | alphanumeric
  | byte
deriving DecidableEq

def Mode.indicator : Mode → Nat
  | .numeric => 1
  | .alphanumeric => 2
  | .byte => 4

/-- Digits, capitals and ` $%*+-./:`. -/
def alphanumericCharset : List Nat :=
  List.range' 48 10 ++ List.range' 65 26 ++ [32, 36, 37, 42, 43, 45, 46, 47, 58]

def alphanumericMap (b : Nat) : Option Nat := alphanumericCharset.idxOf? b

def isDigitByte (b : Nat) : Bool := decide (48 ≤ b) && decide (b ≤ 57)
def isAlphanumericByte (b : Nat) : Bool := (alphanumericMap b).isSome

def validByte : Mode → Nat → Bool
  | .numeric, b => isDigitByte b
  | .alphanumeric, b => isAlphanumericByte b
  | .byte, _ => true

def getCharCountBits (version : Nat) : Mode → Nat
  | .numeric => if version ≤ 9 then 10 else if version ≤ 26 then 12 else 14
  | .alphanumeric => if version ≤ 9 then 9 else if version ≤ 26 then 11 else 13
  | .byte => if version ≤ 9 then 8 else 16

def maxCount (version : Nat) (mode : Mode) : Nat := 2 ^ getCharCountBits version mode - 1

def dataBitsForLength : Mode → Nat → Nat
  | .numeric, count => count / 3 * 10 + if count % 3 = 0 then 0 else if count % 3 = 1 then 4 else 7
  | .alphanumeric, count => count / 2 * 11 + if count % 2 = 0 then 0 else 6
  | .byte, count => count * 8

/-- Places are counted from one. -/
structure Segment where
  start : Nat
  mode : Mode
  len : Nat
deriving DecidableEq

def segmentBits (version : Nat) (segment : Segment) : Nat :=
  4 + getCharCountBits version segment.mode + dataBitsForLength segment.mode segment.len

def segmentLine (version : Nat) : Line Segment where
  source segment := segment.start
  target segment := segment.start + segment.len
  cost := segmentBits version

/-! ## The search -/

def inf : Nat := 1000000000

/-- One mode from one place, as long as its bytes and its count go. -/
def tryMode (version start base : Nat) (mode : Mode) : Nat → List Nat → Table Segment → Table Segment
  | _, [], table => table
  | run, byte :: rest, table =>
    if validByte mode byte = false ∨ maxCount version mode ≤ run then table
    else tryMode version start base mode (run + 1) rest
      ((segmentLine version).offer base table ⟨start, mode, run + 1⟩)

def searchFrom (value : List Nat) (version : Nat) (table : Table Segment) (start : Nat) : Table Segment :=
  let base := table.best start
  if base < inf then
    [Mode.numeric, Mode.alphanumeric, Mode.byte].foldl
      (fun table mode => tryMode version start base mode 0 (value.drop (start - 1)) table) table
  else table

def search (value : List Nat) (version : Nat) : Table Segment :=
  (List.range' 1 value.length).foldl (searchFrom value version)
    ⟨fun i => if i = 1 then 0 else inf, fun _ => none⟩

/-- The last steps are followed back to the first place; a missing one raises. -/
def backtrack (last : Nat → Option Segment) : Nat → Nat → List Segment → Option (List Segment)
  | 0, cursor, segments => if 1 < cursor then none else some segments
  | steps + 1, cursor, segments =>
    if 1 < cursor then
      (last cursor).bind fun step => backtrack last steps step.start (step :: segments)
    else some segments

def optimizeSegments (value : List Nat) (version : Nat) : Option (List Segment × Nat) :=
  let table := search value version
  let stop := value.length + 1
  if table.best stop < inf then
    (backtrack table.last stop stop []).map fun segments => (segments, table.best stop)
  else none

/-! ## The bits of the segments -/

def digitAt (value : List Nat) (idx : Nat) : Option Int := (value[idx - 1]?).map fun b => (b : Int) - 48

def alphanumericAt (value : List Nat) (idx : Nat) : Option Nat := (value[idx - 1]?).bind alphanumericMap

def appendNumeric (value : List Nat) : Nat → Nat → List Nat → Option (List Nat)
  | 0, _, bits => some bits
  | 1, idx, bits => do
    let d ← digitAt value idx
    return appendBits bits d.toNat 4
  | 2, idx, bits => do
    let d1 ← digitAt value idx
    let d2 ← digitAt value (idx + 1)
    return appendBits bits (d1 * 10 + d2).toNat 7
  | remain + 3, idx, bits => do
    let d1 ← digitAt value idx
    let d2 ← digitAt value (idx + 1)
    let d3 ← digitAt value (idx + 2)
    appendNumeric value remain (idx + 3) (appendBits bits (d1 * 100 + d2 * 10 + d3).toNat 10)

def appendAlphanumeric (value : List Nat) : Nat → Nat → List Nat → Option (List Nat)
  | 0, _, bits => some bits
  | 1, idx, bits => do
    let a ← alphanumericAt value idx
    return appendBits bits a 6
  | remain + 2, idx, bits => do
    let a ← alphanumericAt value idx
    let b ← alphanumericAt value (idx + 1)
    appendAlphanumeric value remain (idx + 2) (appendBits bits (a * 45 + b) 11)

def appendBytes (value : List Nat) : Nat → Nat → List Nat → Option (List Nat)
  | 0, _, bits => some bits
  | remain + 1, idx, bits => do
    let b ← value[idx - 1]?
    appendBytes value remain (idx + 1) (appendBits bits b 8)

def appendModeData (bits value : List Nat) (segment : Segment) : Option (List Nat) :=
  match segment.mode with
  | .numeric => appendNumeric value segment.len segment.start bits
  | .alphanumeric => appendAlphanumeric value segment.len segment.start bits
  | .byte => appendBytes value segment.len segment.start bits

def encodeSegmentsBits (value : List Nat) (segments : List Segment) (version : Nat) : Option (List Nat) :=
  segments.foldlM (fun bits segment =>
    let bits := appendBits bits segment.mode.indicator 4
    let bits := appendBits bits segment.len (getCharCountBits version segment.mode)
    appendModeData bits value segment) []

end Space2.QrCode

/-!
# The cheapest segmentation

The search is the relaxation of the valid segments, the way back is a segmentation,
and the bits that are written are as many as its cost says.
-/
namespace Space2.QrCode

open Space2.Base

structure ValidSegment (value : List Nat) (version : Nat) (segment : Segment) : Prop where
  start_pos : 1 ≤ segment.start
  within : segment.start - 1 + segment.len ≤ value.length
  bytes : ∀ byte ∈ (value.drop (segment.start - 1)).take segment.len, validByte segment.mode byte = true
  count : segment.len ≤ maxCount version segment.mode

/-- One valid segment after the other, from the first place to the end. -/
def IsSegmentation (value : List Nat) (version : Nat) (segments : List Segment) : Prop :=
  (segmentLine version).IsPath (ValidSegment value version) 1 segments (value.length + 1)

def segmentsBits (version : Nat) (segments : List Segment) : Nat := (segmentLine version).pathCost segments

/-! ## The search relaxes every valid segment -/

/-- The segments that are tried with one mode. -/
def runs (version start : Nat) (mode : Mode) : Nat → List Nat → List Segment
  | _, [] => []
  | run, byte :: rest =>
    if validByte mode byte = false ∨ maxCount version mode ≤ run then []
    else ⟨start, mode, run + 1⟩ :: runs version start mode (run + 1) rest

theorem tryMode_eq (version start base : Nat) (mode : Mode) (run : Nat) (bytes : List Nat)
    (table : Table Segment) : tryMode version start base mode run bytes table =
      (runs version start mode run bytes).foldl ((segmentLine version).offer base) table := by
  induction bytes generalizing run table with
  | nil => rfl
  | cons byte rest ih =>
    rw [tryMode, runs]
    split_ifs
    · rfl
    · rw [ih, List.foldl_cons]

theorem mem_runs {version start : Nat} {mode : Mode} {run : Nat} {bytes : List Nat} {s : Segment} :
    s ∈ runs version start mode run bytes ↔ s.start = start ∧ s.mode = mode ∧ run < s.len ∧
      s.len ≤ maxCount version mode ∧ s.len - run ≤ bytes.length ∧
      ∀ byte ∈ bytes.take (s.len - run), validByte mode byte = true := by
  induction bytes generalizing run with
  | nil =>
    refine ⟨fun h => absurd h List.not_mem_nil, ?_⟩
    rintro ⟨-, -, hrun, -, hlen, -⟩
    rw [List.length_nil] at hlen
    omega
  | cons byte rest ih =>
    have htake : run < s.len → (byte :: rest).take (s.len - run) =
        byte :: rest.take (s.len - (run + 1)) := by
      intro hrun
      rw [show s.len - run = s.len - (run + 1) + 1 by omega, List.take_succ_cons]
    rw [runs]
    by_cases hstop : validByte mode byte = false ∨ maxCount version mode ≤ run
    · rw [if_pos hstop]
      refine ⟨fun h => absurd h List.not_mem_nil, ?_⟩
      rintro ⟨-, -, hrun, hcount, -, hbytes⟩
      rw [htake hrun, List.forall_mem_cons] at hbytes
      rcases hstop with hinvalid | hlimit
      · rw [hbytes.1] at hinvalid
        cases hinvalid
      · omega
    · rw [if_neg hstop]
      push Not at hstop
      obtain ⟨hvalid, hlimit⟩ := hstop
      have hvalid : validByte mode byte = true := by simpa using hvalid
      rw [List.mem_cons, ih, List.length_cons]
      constructor
      · rintro (rfl | ⟨hstart, hmode, hrun, hcount, hlen, hbytes⟩)
        · refine ⟨rfl, rfl, Nat.lt_succ_self run, hlimit, ?_, ?_⟩
          · dsimp only
            omega
          · rw [htake (Nat.lt_succ_self run)]
            dsimp only
            rw [Nat.sub_self, List.take_zero]
            exact List.forall_mem_singleton.mpr hvalid
        · refine ⟨hstart, hmode, Nat.lt_of_succ_lt hrun, hcount, by omega, ?_⟩
          rw [htake (Nat.lt_of_succ_lt hrun)]
          exact List.forall_mem_cons.mpr ⟨hvalid, hbytes⟩
      · rintro ⟨hstart, hmode, hrun, hcount, hlen, hbytes⟩
        rw [htake hrun, List.forall_mem_cons] at hbytes
        rcases Nat.lt_or_ge (run + 1) s.len with hlonger | hlast
        · exact Or.inr ⟨hstart, hmode, hlonger, hcount, by omega, hbytes.2⟩
        · refine Or.inl ?_
          obtain ⟨_, _, len⟩ := s
          obtain rfl : len = run + 1 := by
            dsimp only at hlast hrun
            omega
          rw [← hstart, ← hmode]

/-- The segments that are tried from a place. -/
def steps (value : List Nat) (version start : Nat) : List Segment :=
  [Mode.numeric, Mode.alphanumeric, Mode.byte].flatMap fun mode =>
    runs version start mode 0 (value.drop (start - 1))

theorem mem_steps {value : List Nat} {version k : Nat} (hk : 1 ≤ k) (s : Segment) :
    s ∈ steps value version k ↔ ValidSegment value version s ∧ (segmentLine version).source s = k ∧
      k < (segmentLine version).target s := by
  have hmode : s.mode ∈ [Mode.numeric, Mode.alphanumeric, Mode.byte] := by
    cases s.mode <;> decide
  rw [steps, List.mem_flatMap]
  constructor
  · rintro ⟨mode, -, hs⟩
    obtain ⟨hstart, rfl, hpos, hcount, hlen, hbytes⟩ := mem_runs.mp hs
    subst hstart
    rw [Nat.sub_zero, List.length_drop] at hlen
    refine ⟨⟨hk, by omega, hbytes, hcount⟩, rfl, ?_⟩
    exact Nat.lt_add_of_pos_right hpos
  · rintro ⟨⟨hpos, hwithin, hbytes, hcount⟩, rfl, hfar⟩
    change s.start < s.start + s.len at hfar
    refine ⟨s.mode, hmode, mem_runs.mpr ⟨rfl, rfl, by omega, hcount, ?_, hbytes⟩⟩
    rw [Nat.sub_zero, List.length_drop]
    change s.len ≤ value.length - (s.start - 1)
    omega

theorem searchFrom_eq (value : List Nat) (version : Nat) (table : Table Segment) (start : Nat) :
    searchFrom value version table start = if table.best start < inf then
      (steps value version start).foldl ((segmentLine version).offer (table.best start)) table else table := by
  rw [searchFrom, steps, List.foldl_flatMap]
  simp only [tryMode_eq]

theorem search_spec (value : List Nat) (version : Nat) :
    (segmentLine version).Relaxed (ValidSegment value version) 1 inf (value.length + 1) (search value version) ∧
      (segmentLine version).Settled (ValidSegment value version) (value.length + 1) (search value version) := by
  unfold search
  generalize value.length = count
  induction count with
  | zero =>
    refine ⟨⟨fun i => ?_, rfl, fun i hi hcap => ?_⟩, fun s hs hsource => ?_⟩
    · change (if i = 1 then 0 else inf) ≤ inf
      split_ifs
      · exact Nat.zero_le inf
      · exact le_rfl
    · change (if i = 1 then 0 else inf) < inf at hcap
      rw [if_neg hi] at hcap
      exact absurd hcap (lt_irrefl inf)
    · exact absurd hs.start_pos (Nat.not_le.mpr hsource)
  | succ count ih =>
    rw [List.range'_concat, List.foldl_append, List.foldl_cons, List.foldl_nil, Nat.one_mul,
      Nat.add_comm 1 count, searchFrom_eq]
    exact Line.relaxed_next ih.1 ih.2 (Nat.succ_pos count) (fun s _ => Nat.le_add_right s.start s.len)
      (mem_steps (Nat.succ_pos count))

/-! ## The way back -/

theorem backtrack_spec {value : List Nat} {version k : Nat} {table : Table Segment}
    (h : (segmentLine version).Relaxed (ValidSegment value version) 1 inf k table) {fuel cursor : Nat}
    (hfuel : cursor ≤ fuel) (hcursor : 1 ≤ cursor) (hcap : table.best cursor < inf) (rest : List Segment) :
    ∃ segments, backtrack table.last fuel cursor rest = some (segments ++ rest) ∧
      (segmentLine version).IsPath (ValidSegment value version) 1 segments cursor ∧
      segmentsBits version segments = table.best cursor := by
  induction fuel generalizing cursor rest with
  | zero => omega
  | succ fuel ih =>
    rw [backtrack]
    by_cases hfirst : 1 < cursor
    · obtain ⟨step, hlast, hvalid, htarget, hbefore, -, hfrom, hbest⟩ := h.back cursor hfirst.ne' hcap
      change 1 ≤ step.start at hfrom
      change step.start < cursor at hbefore
      change table.best cursor = table.best step.start + segmentBits version step at hbest
      obtain ⟨segments, hback, hpath, hbits⟩ := ih (by omega) hfrom (by omega) (step :: rest)
      rw [if_pos hfirst, hlast]
      refine ⟨segments ++ [step], ?_, ?_, ?_⟩
      · rw [List.append_assoc]
        exact hback
      · rw [← htarget]
        exact hpath.concat hvalid rfl
      · rw [segmentsBits, Line.pathCost, List.map_append, List.sum_append]
        change segmentsBits version segments + (segmentBits version step + 0) = _
        rw [hbits, hbest, Nat.add_zero]
    · obtain rfl : cursor = 1 := by omega
      rw [if_neg hfirst]
      exact ⟨[], rfl, rfl, h.best_origin.symm⟩

/-- The table has no more than any segmentation. -/
theorem search_le {value : List Nat} {version : Nat} {segments : List Segment}
    (h : IsSegmentation value version segments) :
    (search value version).best (value.length + 1) ≤ segmentsBits version segments := by
  obtain ⟨hrelaxed, hsettled⟩ := search_spec value version
  have hend : (segmentLine version).Settled (ValidSegment value version) (value.length + 2)
      (search value version) := by
    intro s hs hsource
    rcases Nat.lt_succ_iff_lt_or_eq.mp hsource with hearlier | hlast
    · exact hsettled s hs hearlier
    · have hwithin := hs.within
      have hempty : s.len = 0 := by
        change s.start = value.length + 1 at hlast
        omega
      have hstays : (segmentLine version).target s = (segmentLine version).source s := by
        change s.start + s.len = s.start
        rw [hempty, Nat.add_zero]
      rw [hstays]
      exact Nat.le_add_right _ _
  have hbefore : ∀ s, ValidSegment value version s → (segmentLine version).source s < value.length + 2 := by
    intro s hs
    have hwithin := hs.within
    have hpos := hs.start_pos
    change s.start < value.length + 2
    omega
  have hle := hend.best_le hbefore h
  rw [hrelaxed.best_origin, Nat.zero_add] at hle
  exact hle

/-! ## The bits that are written -/

theorem appendNumeric_spec (value : List Nat) (remain idx : Nat) (bits : List Nat) (hidx : 1 ≤ idx)
    (hwithin : idx - 1 + remain ≤ value.length) : ∃ written, appendNumeric value remain idx bits = some written ∧
      written.length = bits.length + dataBitsForLength .numeric remain := by
  have hdigit : ∀ place, idx ≤ place → place < idx + remain → ∃ d, digitAt value place = some d := by
    intro place hfrom hto
    refine ⟨(value[place - 1] : Int) - 48, ?_⟩
    rw [digitAt, List.getElem?_eq_getElem (by omega)]
    rfl
  match remain with
  | 0 => exact ⟨bits, rfl, rfl⟩
  | 1 =>
    obtain ⟨d, hd⟩ := hdigit idx le_rfl (by omega)
    refine ⟨_, by rw [appendNumeric, hd]; rfl, ?_⟩
    exact length_appendBits bits d.toNat 4
  | 2 =>
    obtain ⟨d1, hd1⟩ := hdigit idx le_rfl (by omega)
    obtain ⟨d2, hd2⟩ := hdigit (idx + 1) (by omega) (by omega)
    refine ⟨_, by rw [appendNumeric, hd1, hd2]; rfl, ?_⟩
    exact length_appendBits bits (d1 * 10 + d2).toNat 7
  | remain + 3 =>
    obtain ⟨d1, hd1⟩ := hdigit idx le_rfl (by omega)
    obtain ⟨d2, hd2⟩ := hdigit (idx + 1) (by omega) (by omega)
    obtain ⟨d3, hd3⟩ := hdigit (idx + 2) (by omega) (by omega)
    obtain ⟨written, hrun, hlength⟩ := appendNumeric_spec value remain (idx + 3)
      (appendBits bits (d1 * 100 + d2 * 10 + d3).toNat 10) (by omega) (by omega)
    refine ⟨written, by rw [appendNumeric, hd1, hd2, hd3]; exact hrun, ?_⟩
    rw [hlength, length_appendBits, dataBitsForLength, dataBitsForLength,
      Nat.add_div_right remain (Nat.succ_pos 2), Nat.add_mod_right]
    ring

theorem appendAlphanumeric_spec (value : List Nat) (remain idx : Nat) (bits : List Nat)
    (hcode : ∀ place, idx ≤ place → place < idx + remain → ∃ a, alphanumericAt value place = some a) :
    ∃ written, appendAlphanumeric value remain idx bits = some written ∧
      written.length = bits.length + dataBitsForLength .alphanumeric remain := by
  match remain with
  | 0 => exact ⟨bits, rfl, rfl⟩
  | 1 =>
    obtain ⟨a, ha⟩ := hcode idx le_rfl (by omega)
    refine ⟨_, by rw [appendAlphanumeric, ha]; rfl, ?_⟩
    exact length_appendBits bits a 6
  | remain + 2 =>
    obtain ⟨a, ha⟩ := hcode idx le_rfl (by omega)
    obtain ⟨b, hb⟩ := hcode (idx + 1) (by omega) (by omega)
    obtain ⟨written, hrun, hlength⟩ := appendAlphanumeric_spec value remain (idx + 2)
      (appendBits bits (a * 45 + b) 11) fun place hfrom hto => hcode place (by omega) (by omega)
    refine ⟨written, by rw [appendAlphanumeric, ha, hb]; exact hrun, ?_⟩
    rw [hlength, length_appendBits, dataBitsForLength, dataBitsForLength,
      Nat.add_div_right remain Nat.two_pos, Nat.add_mod_right]
    ring

theorem appendBytes_spec {value : List Nat} {remain idx : Nat} (bits : List Nat) (hidx : 1 ≤ idx)
    (hwithin : idx - 1 + remain ≤ value.length) : ∃ written, appendBytes value remain idx bits = some written ∧
      written.length = bits.length + dataBitsForLength .byte remain := by
  induction remain generalizing idx bits with
  | zero => exact ⟨bits, rfl, rfl⟩
  | succ remain ih =>
    have hinside : idx - 1 < value.length := by omega
    obtain ⟨written, hrun, hlength⟩ := ih (appendBits bits value[idx - 1] 8) (Nat.succ_pos idx) (by omega)
    refine ⟨written, by rw [appendBytes, List.getElem?_eq_getElem hinside]; exact hrun, ?_⟩
    rw [hlength, length_appendBits, dataBitsForLength, dataBitsForLength]
    ring

theorem appendModeData_spec {value : List Nat} {version : Nat} {segment : Segment}
    (h : ValidSegment value version segment) (bits : List Nat) :
    ∃ written, appendModeData bits value segment = some written ∧
      written.length = bits.length + dataBitsForLength segment.mode segment.len := by
  obtain ⟨start, mode, len⟩ := segment
  obtain ⟨hpos, hwithin, hbytes, -⟩ := h
  dsimp only at hpos hwithin hbytes
  cases mode with
  | numeric => exact appendNumeric_spec value len start bits hpos hwithin
  | alphanumeric =>
    refine appendAlphanumeric_spec value len start bits fun place hfrom hto => ?_
    have hinside : place - 1 < value.length := by omega
    have hmem : value[place - 1] ∈ (value.drop (start - 1)).take len := by
      refine List.mem_iff_getElem?.mpr ⟨place - start, ?_⟩
      rw [List.getElem?_take_of_lt (by omega), List.getElem?_drop,
        show start - 1 + (place - start) = place - 1 by omega, List.getElem?_eq_getElem hinside]
    have hvalid := hbytes _ hmem
    obtain ⟨a, ha⟩ := Option.isSome_iff_exists.mp hvalid
    exact ⟨a, by rw [alphanumericAt, List.getElem?_eq_getElem hinside]; exact ha⟩
  | byte => exact appendBytes_spec bits hpos hwithin

theorem encodeSegmentsBits_spec {value : List Nat} {version : Nat} {segments : List Segment}
    (h : IsSegmentation value version segments) : ∃ bits, encodeSegmentsBits value segments version = some bits ∧
      bits.length = segmentsBits version segments := by
  suffices hfrom : ∀ start bits,
      (segmentLine version).IsPath (ValidSegment value version) start segments (value.length + 1) →
      ∃ written, segments.foldlM (fun bits segment =>
          let bits := appendBits bits segment.mode.indicator 4
          let bits := appendBits bits segment.len (getCharCountBits version segment.mode)
          appendModeData bits value segment) bits = some written ∧
        written.length = bits.length + segmentsBits version segments by
    obtain ⟨bits, hrun, hlength⟩ := hfrom 1 [] h
    exact ⟨bits, hrun, hlength.trans (Nat.zero_add _)⟩
  clear h
  induction segments with
  | nil => exact fun _ bits _ => ⟨bits, rfl, rfl⟩
  | cons first segments ih =>
    rintro start bits ⟨hfirst, -, hrest⟩
    obtain ⟨next, hdata, hnext⟩ := appendModeData_spec hfirst
      (appendBits (appendBits bits first.mode.indicator 4) first.len (getCharCountBits version first.mode))
    obtain ⟨written, hrun, hlength⟩ := ih _ next hrest
    refine ⟨written, ?_, ?_⟩
    · rw [List.foldlM_cons]
      dsimp only
      rw [hdata]
      exact hrun
    · rw [hlength, hnext, length_appendBits, length_appendBits, segmentsBits, segmentsBits, Line.pathCost,
        Line.pathCost, List.map_cons, List.sum_cons]
      change _ = bits.length + (segmentBits version first + _)
      rw [segmentBits]
      ring

/-! ## The least number of bits -/

/-- The cheapest segmentation below the cap is found; without one the search raises. -/
theorem optimizeSegments_spec (value : List Nat) (version : Nat) :
    (∃ segments, optimizeSegments value version = some (segments, segmentsBits version segments) ∧
      IsSegmentation value version segments ∧ segmentsBits version segments < inf ∧
      ∀ other, IsSegmentation value version other → segmentsBits version segments ≤ segmentsBits version other) ∨
    optimizeSegments value version = none ∧
      ∀ other, IsSegmentation value version other → inf ≤ segmentsBits version other := by
  obtain ⟨hrelaxed, -⟩ := search_spec value version
  rw [optimizeSegments]
  by_cases hreached : (search value version).best (value.length + 1) < inf
  · obtain ⟨segments, hback, hpath, hbits⟩ :=
      backtrack_spec hrelaxed le_rfl (Nat.succ_pos value.length) hreached []
    refine Or.inl ⟨segments, ?_, hpath, hbits.trans_lt hreached, fun other hother => ?_⟩
    · rw [if_pos hreached, hback, List.append_nil, hbits]
      rfl
    · rw [hbits]
      exact search_le hother
  · refine Or.inr ⟨if_neg hreached, fun other hother => ?_⟩
    exact (not_lt.mp hreached).trans (search_le hother)

/-- Where every valid segment takes eight bits a byte, so does every segmentation. -/
theorem path_bits {value : List Nat} {version start stop : Nat} {segments : List Segment}
    (hbits : ∀ s, ValidSegment value version s → 8 * s.len ≤ segmentBits version s)
    (h : (segmentLine version).IsPath (ValidSegment value version) start segments stop) :
    8 * stop ≤ 8 * start + segmentsBits version segments := by
  induction segments generalizing start with
  | nil =>
    obtain rfl : start = stop := h
    exact Nat.le_add_right _ _
  | cons first segments ih =>
    obtain ⟨hfirst, rfl, hrest⟩ := h
    have htail := ih hrest
    have hhere := hbits first hfirst
    rw [segmentsBits, Line.pathCost, List.map_cons, List.sum_cons]
    change 8 * stop ≤ 8 * (first.start + first.len) + segmentsBits version segments at htail
    change _ ≤ 8 * first.start + (segmentBits version first + segmentsBits version segments)
    omega

/-- The byte `255` is only valid in the last mode. -/
theorem valid_high {count version : Nat} (s : Segment)
    (h : ValidSegment (List.replicate count 255) version s) : 8 * s.len ≤ segmentBits version s := by
  obtain ⟨start, mode, len⟩ := s
  obtain ⟨hpos, hwithin, hbytes, -⟩ := h
  dsimp only at hpos hwithin hbytes ⊢
  rw [List.length_replicate] at hwithin
  rw [List.drop_replicate, List.take_replicate, Nat.min_eq_left (by omega)] at hbytes
  cases len with
  | zero => exact Nat.zero_le _
  | succ len =>
    have hvalid : validByte mode 255 = true := hbytes 255 (List.mem_replicate.mpr ⟨Nat.succ_ne_zero len, rfl⟩)
    cases mode with
    | numeric => exact absurd hvalid (by decide)
    | alphanumeric => exact absurd hvalid (by decide)
    | byte =>
      change 8 * (len + 1) ≤ 4 + getCharCountBits version .byte + (len + 1) * 8
      omega

/-- A string of `125000000` bytes that are only valid as bytes reaches the cap. -/
theorem not_every_string : ¬ ∀ value : List Nat, ∀ version, (∀ byte ∈ value, byte < 256) →
    1 ≤ version → version ≤ 40 → ∃ segments bits, optimizeSegments value version = some (segments, bits) ∧
      IsSegmentation value version segments := by
  intro h
  obtain ⟨segments, bits, hrun, -⟩ := h (List.replicate 125000000 255) 1
    (fun byte hbyte => by rw [List.eq_of_mem_replicate hbyte]; decide) le_rfl (by decide)
  rcases optimizeSegments_spec (List.replicate 125000000 255) 1 with ⟨found, -, hfound, hcap, -⟩ | ⟨hnone, -⟩
  · have hbits := path_bits valid_high hfound
    rw [List.length_replicate] at hbits
    change segmentsBits 1 found < 1000000000 at hcap
    omega
  · rw [hnone] at hrun
    cases hrun

/-- Whatever the string, the search either finds a segmentation with the bits that it reports, which
are the bits that are written and no more than any other's, or raises since every segmentation has
at least `1000000000` bits. -/
theorem segments_cheapest (value : List Nat) (version : Nat) :
    (∃ segments bits written, optimizeSegments value version = some (segments, bits) ∧
      IsSegmentation value version segments ∧ segmentsBits version segments = bits ∧
      encodeSegmentsBits value segments version = some written ∧ written.length = bits ∧ bits < inf ∧
      ∀ other, IsSegmentation value version other → bits ≤ segmentsBits version other) ∨
    optimizeSegments value version = none ∧
      ∀ other, IsSegmentation value version other → inf ≤ segmentsBits version other := by
  rcases optimizeSegments_spec value version with ⟨segments, hrun, hsegmentation, hcap, hleast⟩ | hnone
  · obtain ⟨written, hwritten, hlength⟩ := encodeSegmentsBits_spec hsegmentation
    exact Or.inl ⟨segments, _, written, hrun, hsegmentation, rfl, hwritten, hlength, hcap, hleast⟩
  · exact Or.inr hnone

end Space2.QrCode
