import Space2.Base.Horner
import Space2.Base.Interleave
import Space2.QrCode.GaloisField

/-!
# Reed-Solomon remainders

The divisor is the product of one linear factor for each power of two, and the
remainder is computed by a shift register. Data with its remainder is zero at every
one of these powers.
-/
namespace Space2.QrCode

open Space2.Base

def polyMultiply (p q : List Nat) : List Nat :=
  p.zipIdx.foldl
    (fun result (value, i) => q.zipIdx.foldl
      (fun result (other, j) =>
        result.modify (i + j) fun entry => bitXor entry (reedSolomonMultiply value other)) result)
    (List.replicate (p.length + q.length - 1) 0)

def root (i : Nat) : Nat := (List.range i).foldl (fun root _ => reedSolomonMultiply root 2) 1

/-- The divisor with its leading coefficient. -/
def fullDivisor (degree : Nat) : List Nat :=
  (List.range degree).foldl (fun result i => polyMultiply result [1, root i]) [1]

def reedSolomonDivisor (degree : Nat) : List Nat := (fullDivisor degree).tail

/-- One byte of the data; an empty divisor leaves nothing to read, which raises. -/
def remainderStep (divisor result : List Nat) (byte : Nat) : Option (List Nat) :=
  match result with
  | [] => none
  | first :: rest =>
    let factor := bitXor byte first
    some (List.zipWith
      (fun entry coefficient => bitXor entry (reedSolomonMultiply coefficient factor))
      (rest ++ [0]) divisor)

def reedSolomonRemainder (data divisor : List Nat) : Option (List Nat) :=
  data.foldlM (remainderStep divisor) (List.replicate divisor.length 0)

/-! ## Values at a member of the field -/

/-- A codeword as a polynomial, the first byte at the highest power. -/
def value (r : Gf) (l : List Nat) : Gf := horner r (l.map gf)

theorem value_append (r : Gf) (l l' : List Nat) :
    value r (l ++ l') = value r l * r ^ l'.length + value r l' := by
  rw [value, List.map_append, horner_append, List.length_map]
  rfl

theorem value_cons (r : Gf) (n : Nat) (l : List Nat) :
    value r (n :: l) = gf n * r ^ l.length + value r l := by
  rw [value, List.map_cons, horner_cons, List.length_map]
  rfl

theorem value_replicate_zero (r : Gf) (n : Nat) : value r (List.replicate n 0) = 0 := by
  rw [value, List.map_replicate, gf_zero, horner_replicate_zero]

theorem value_modify (r : Gf) {l : List Nat} {k n : Nat} (h : k < l.length) :
    value r (l.modify k fun entry => bitXor entry n) = value r l + gf n * r ^ (l.length - 1 - k) := by
  have hmap : (l.modify k fun entry => bitXor entry n).map gf = (l.map gf).modify k (· + gf n) := by
    apply List.ext_getElem?
    intro i
    rw [List.getElem?_map, List.getElem?_modify, List.getElem?_modify, List.getElem?_map]
    cases l[i]? with
    | none => rfl
    | some entry =>
      simp only [Option.map_some]
      split_ifs
      · exact congrArg some (gf_xor entry n)
      · rfl
  rw [value, hmap, horner_modify r (gf n) (by rwa [List.length_map]), List.length_map]
  rfl

/-! ## Products of polynomials -/

/-- What a row of the product adds, from the column `j` on. -/
def addRow (n i : Nat) (row : List (Nat × Nat)) (result : List Nat) : List Nat :=
  row.foldl (fun result (other, j) =>
    result.modify (i + j) fun entry => bitXor entry (reedSolomonMultiply n other)) result

theorem length_addRow (n i : Nat) (row : List (Nat × Nat)) (result : List Nat) :
    (addRow n i row result).length = result.length := by
  induction row generalizing result with
  | nil => rfl
  | cons entry row ih =>
    change (addRow n i row _).length = _
    rw [ih, List.length_modify]

theorem value_addRow (r : Gf) (n i j : Nat) (q result : List Nat)
    (h : i + j + q.length ≤ result.length) :
    value r (addRow n i (q.zipIdx j) result) =
      value r result + gf n * value r q * r ^ (result.length - (i + j + q.length)) := by
  induction q generalizing j result with
  | nil =>
    change value r result = _
    rw [value, value, List.map_nil, horner_nil, mul_zero, zero_mul, add_zero]
  | cons other q ih =>
    rw [List.length_cons] at h
    have hinside : i + j < result.length := by omega
    have hrest := ih (j + 1)
      (result.modify (i + j) fun entry => bitXor entry (reedSolomonMultiply n other))
      (by rw [List.length_modify]; omega)
    rw [List.zipIdx_cons]
    change value r (addRow n i (q.zipIdx (j + 1)) _) = _
    rw [hrest, value_modify r hinside, List.length_modify, gf_multiply, value_cons, List.length_cons]
    have hexponent : result.length - 1 - (i + j) =
        q.length + (result.length - (i + j + (q.length + 1))) := by omega
    have hsame : result.length - (i + (j + 1) + q.length) =
        result.length - (i + j + (q.length + 1)) := by omega
    rw [hexponent, hsame, pow_add]
    ring

theorem value_rows (r : Gf) (i : Nat) (p q result : List Nat)
    (h : i + p.length + q.length ≤ result.length + 1) :
    value r ((p.zipIdx i).foldl (fun result (n, i) => addRow n i q.zipIdx result) result) =
      value r result + value r p * value r q * r ^ (result.length + 1 - (i + p.length + q.length)) ∧
    ((p.zipIdx i).foldl (fun result (n, i) => addRow n i q.zipIdx result) result).length =
      result.length := by
  induction p generalizing i result with
  | nil =>
    refine ⟨?_, rfl⟩
    change value r result = _
    rw [value, value, List.map_nil, horner_nil, zero_mul, zero_mul, add_zero]
  | cons n p ih =>
    rw [List.length_cons] at h
    obtain ⟨hvalue, hlength⟩ := ih (i + 1) (addRow n i q.zipIdx result)
      (by rw [length_addRow]; omega)
    rw [length_addRow] at hvalue hlength
    rw [List.zipIdx_cons, List.foldl_cons]
    refine ⟨hvalue.trans ?_, hlength⟩
    rw [value_addRow r n i 0 q result (by omega), value_cons, List.length_cons]
    have hexponent : result.length - (i + 0 + q.length) =
        p.length + (result.length + 1 - (i + (p.length + 1) + q.length)) := by omega
    have hsame : result.length + 1 - (i + 1 + p.length + q.length) =
        result.length + 1 - (i + (p.length + 1) + q.length) := by omega
    rw [hexponent, hsame, pow_add]
    ring

theorem value_polyMultiply (r : Gf) {p q : List Nat} (hp : p ≠ []) :
    value r (polyMultiply p q) = value r p * value r q ∧
      (polyMultiply p q).length = p.length + q.length - 1 := by
  have hpos := List.length_pos_of_ne_nil hp
  obtain ⟨hvalue, hlength⟩ := value_rows r 0 p q
    (List.replicate (p.length + q.length - 1) 0) (by rw [List.length_replicate]; omega)
  rw [List.length_replicate] at hvalue hlength
  refine ⟨hvalue.trans ?_, hlength⟩
  rw [value_replicate_zero, zero_add, show p.length + q.length - 1 + 1 - (0 + p.length + q.length) = 0
    by omega, pow_zero, mul_one]

/-! ## The divisor -/

theorem addRow_getElem?_zero (n i j : Nat) (q result : List Nat) (h : 0 < i + j) :
    (addRow n i (q.zipIdx j) result)[0]? = result[0]? := by
  induction q generalizing j result with
  | nil => rfl
  | cons other q ih =>
    rw [List.zipIdx_cons]
    change (addRow n i (q.zipIdx (j + 1)) _)[0]? = _
    have hlater : ¬ i + j = 0 := by omega
    rw [ih (j + 1) _ (by omega), List.getElem?_modify]
    cases result[0]? with
    | none => rfl
    | some first => exact congrArg some (if_neg hlater)

theorem rows_getElem?_zero (i : Nat) (p q result : List Nat) (h : 0 < i) :
    ((p.zipIdx i).foldl (fun result (n, i) => addRow n i q.zipIdx result) result)[0]? = result[0]? := by
  induction p generalizing i result with
  | nil => rfl
  | cons n p ih =>
    rw [List.zipIdx_cons, List.foldl_cons, ih (i + 1) _ (Nat.succ_pos i),
      addRow_getElem?_zero n i 0 q result (by omega)]

/-- The leading coefficient of a product. -/
theorem polyMultiply_head (a b : Nat) (p q : List Nat) :
    (polyMultiply (a :: p) (b :: q))[0]? = some (bitXor 0 (reedSolomonMultiply a b)) := by
  have hlength : (a :: p).length + (b :: q).length - 1 = p.length + q.length + 1 := by
    rw [List.length_cons, List.length_cons]
    omega
  change (((a :: p).zipIdx 0).foldl (fun result (n, i) => addRow n i (b :: q).zipIdx result)
    (List.replicate ((a :: p).length + (b :: q).length - 1) 0))[0]? = _
  rw [hlength, List.replicate_succ]
  change ((p.zipIdx (0 + 1)).foldl (fun result (n, i) => addRow n i (b :: q).zipIdx result)
    (addRow a 0 ((b :: q).zipIdx) _))[0]? = _
  rw [rows_getElem?_zero (0 + 1) p (b :: q) _ (Nat.succ_pos 0), List.zipIdx_cons]
  change (addRow a 0 (q.zipIdx (0 + 1)) _)[0]? = _
  rw [addRow_getElem?_zero a 0 (0 + 1) q _ (by omega)]
  rfl

theorem gf_root (i : Nat) : gf (root i) = gf 2 ^ i := by
  induction i with
  | zero => rfl
  | succ i ih =>
    rw [root, List.range_succ, List.foldl_append, List.foldl_cons, List.foldl_nil]
    change gf (reedSolomonMultiply (root i) 2) = _
    rw [gf_multiply, ih, pow_succ]

theorem fullDivisor_spec (degree : Nat) :
    ∃ lead, fullDivisor degree = lead :: reedSolomonDivisor degree ∧ gf lead = 1 ∧
      (reedSolomonDivisor degree).length = degree ∧
      ∀ r, value r (fullDivisor degree) = ((List.range degree).map fun i => r + gf 2 ^ i).prod := by
  induction degree with
  | zero =>
    refine ⟨1, rfl, rfl, rfl, fun r => ?_⟩
    change value r [1] = 1
    rw [value_cons, List.length_nil, pow_zero, mul_one, gf_one]
    exact add_zero 1
  | succ degree ih =>
    obtain ⟨lead, hsplit, hlead, hlength, hvalue⟩ := ih
    have hstep : fullDivisor (degree + 1) = polyMultiply (fullDivisor degree) [1, root degree] := by
      rw [fullDivisor, List.range_succ, List.foldl_append, List.foldl_cons, List.foldl_nil]
      rfl
    have hfull : fullDivisor degree ≠ [] := by
      rw [hsplit]
      exact List.cons_ne_nil lead _
    have hproduct := fun r => value_polyMultiply r (q := [1, root degree]) hfull
    have hnext : (fullDivisor (degree + 1)).length = degree + 2 := by
      rw [hstep, (hproduct 0).2, hsplit, List.length_cons, hlength]
      rfl
    have hhead : (fullDivisor (degree + 1))[0]? = some (bitXor 0 (reedSolomonMultiply lead 1)) := by
      rw [hstep, hsplit]
      exact polyMultiply_head lead 1 _ _
    cases hnew : fullDivisor (degree + 1) with
    | nil =>
      rw [hnew] at hnext
      cases hnext
    | cons first rest =>
      have hrest : reedSolomonDivisor (degree + 1) = rest := by
        rw [reedSolomonDivisor, hnew]
        rfl
      rw [hnew] at hhead hnext
      obtain rfl := Option.some.inj hhead
      refine ⟨_, by rw [hrest], ?_, by rw [hrest]; exact Nat.succ.inj hnext, fun r => ?_⟩
      · rw [gf_xor, gf_multiply, hlead, gf_zero, gf_one, mul_one, zero_add]
      · have hfactor : value r [1, root degree] = r + gf 2 ^ degree := by
          rw [value_cons, value_cons, gf_root, gf_one]
          simp [value]
        rw [← hnew, hstep, (hproduct r).1, hvalue, List.range_succ, List.map_append, List.prod_append,
          hfactor]
        simp

/-- The powers of two below the degree are the zeros of the divisor. -/
theorem divisor_zero {degree i : Nat} (h : i < degree) :
    (gf 2 ^ i) ^ degree + value (gf 2 ^ i) (reedSolomonDivisor degree) = 0 := by
  obtain ⟨lead, hsplit, hlead, hlength, hvalue⟩ := fullDivisor_spec degree
  have hzero := hvalue (gf 2 ^ i)
  rw [hsplit, value_cons, hlead, one_mul, hlength] at hzero
  rw [hzero]
  refine List.prod_eq_zero (List.mem_map.mpr ⟨i, List.mem_range.mpr h, ?_⟩)
  exact Gf.add_self _

/-! ## Remainders -/

/-- One byte more: with a zero of the divisor the register goes on as the data read so far. -/
theorem remainderStep_spec {divisor result : List Nat} (hlength : result.length = divisor.length)
    (hdivisor : divisor ≠ []) (byte : Nat) :
    ∃ next, remainderStep divisor result byte = some next ∧ next.length = divisor.length ∧
      ∀ r, r ^ divisor.length + value r divisor = 0 →
        value r next = value r result * r + gf byte * r ^ divisor.length := by
  cases result with
  | nil => exact absurd (List.length_eq_zero_iff.mp hlength.symm) hdivisor
  | cons first rest =>
    have hrest : (rest ++ [0]).length = divisor.length := by
      rw [List.length_append, List.length_singleton, ← hlength, List.length_cons]
    refine ⟨_, rfl, ?_, fun r hr => ?_⟩
    · rw [List.length_zipWith, hrest, Nat.min_self]
    · have hmap : (List.zipWith (fun entry coefficient =>
            bitXor entry (reedSolomonMultiply coefficient (bitXor byte first))) (rest ++ [0]) divisor).map gf =
          List.zipWith (fun a b => a + b * gf (bitXor byte first)) ((rest ++ [0]).map gf) (divisor.map gf) := by
        rw [List.map_zipWith, List.zipWith_map]
        simp only [gf_xor, gf_multiply]
      have hsame : value r divisor = r ^ divisor.length := by
        have hboth := add_eq_zero_iff_eq_neg.mp hr
        rw [hboth]
        rfl
      rw [value, hmap, horner_zipWith r _ (by rw [List.length_map, List.length_map, hrest])]
      change value r (rest ++ [0]) + value r divisor * gf (bitXor byte first) = _
      have hexponent : divisor.length = rest.length + 1 := by
        rw [← hlength, List.length_cons]
      have hlast : value r [0] = 0 := value_replicate_zero r 1
      rw [hsame, gf_xor, value_append, hlast, value_cons r first rest, List.length_singleton, pow_one,
        hexponent, pow_succ]
      ring

theorem remainder_spec {divisor : List Nat} (hdivisor : divisor ≠ []) (data : List Nat) :
    ∃ remainder, reedSolomonRemainder data divisor = some remainder ∧
      remainder.length = divisor.length ∧
      ∀ r, r ^ divisor.length + value r divisor = 0 →
        value r remainder = value r data * r ^ divisor.length := by
  suffices hfrom : ∀ result, result.length = divisor.length →
      ∃ remainder, data.foldlM (remainderStep divisor) result = some remainder ∧
        remainder.length = divisor.length ∧
        ∀ r, r ^ divisor.length + value r divisor = 0 →
          value r remainder = value r result * r ^ data.length + value r data * r ^ divisor.length by
    obtain ⟨remainder, hrun, hlength, hvalue⟩ := hfrom (List.replicate divisor.length 0) List.length_replicate
    refine ⟨remainder, hrun, hlength, fun r hr => ?_⟩
    rw [hvalue r hr, value_replicate_zero, zero_mul, zero_add]
  induction data with
  | nil =>
    intro result hlength
    refine ⟨result, rfl, hlength, fun r _ => ?_⟩
    rw [List.length_nil, pow_zero, mul_one]
    change _ = _ + 0 * _
    rw [zero_mul, add_zero]
  | cons byte data ih =>
    intro result hlength
    obtain ⟨next, hstep, hnext, hvalue⟩ := remainderStep_spec hlength hdivisor byte
    obtain ⟨remainder, hrun, hremainder, hrest⟩ := ih next hnext
    refine ⟨remainder, ?_, hremainder, fun r hr => ?_⟩
    · rw [List.foldlM_cons, hstep]
      exact hrun
    · rw [hrest r hr, hvalue r hr, value_cons, List.length_cons, pow_succ]
      ring

/-- Data followed by its remainder is zero at the powers of two below the degree. -/
theorem codeword_zero {degree : Nat} (hdegree : degree ≠ 0) (data : List Nat) :
    ∃ remainder, reedSolomonRemainder data (reedSolomonDivisor degree) = some remainder ∧
      remainder.length = degree ∧ ∀ i < degree, value (gf 2 ^ i) (data ++ remainder) = 0 := by
  obtain ⟨-, -, -, hlength, -⟩ := fullDivisor_spec degree
  have hdivisor : reedSolomonDivisor degree ≠ [] := by
    intro hnil
    rw [hnil] at hlength
    exact hdegree hlength.symm
  obtain ⟨remainder, hrun, hremainder, hvalue⟩ := remainder_spec hdivisor data
  rw [hlength] at hremainder hvalue
  refine ⟨remainder, hrun, hremainder, fun i hi => ?_⟩
  rw [value_append, hremainder, hvalue _ (divisor_zero hi)]
  exact Gf.add_self _

/-! ## Bytes -/

theorem forall_mem_modify {l : List Nat} {P : Nat → Prop} {f : Nat → Nat} (hl : ∀ n ∈ l, P n)
    (hf : ∀ n, P n → P (f n)) (k : Nat) : ∀ n ∈ l.modify k f, P n := by
  intro n hn
  obtain ⟨i, hi⟩ := List.mem_iff_getElem?.mp hn
  rw [List.getElem?_modify] at hi
  obtain ⟨entry, hentry, rfl⟩ := Option.map_eq_some_iff.mp hi
  have hmem := hl entry (List.mem_of_getElem? hentry)
  split_ifs
  · exact hf entry hmem
  · exact hmem

theorem addRow_lt {n : Nat} (hn : n < 256) (i : Nat) (row : List (Nat × Nat)) {result : List Nat}
    (h : ∀ entry ∈ result, entry < 256) : ∀ entry ∈ addRow n i row result, entry < 256 := by
  induction row generalizing result with
  | nil => exact h
  | cons other row ih =>
    exact ih (forall_mem_modify h (fun entry hentry => bitXor_lt hentry (reedSolomonMultiply_lt hn _)) _)

theorem polyMultiply_lt {p : List Nat} (hp : ∀ n ∈ p, n < 256) (q : List Nat) :
    ∀ entry ∈ polyMultiply p q, entry < 256 := by
  suffices hfrom : ∀ i result, (∀ entry ∈ result, entry < 256) →
      ∀ entry ∈ (p.zipIdx i).foldl (fun result (n, i) => addRow n i q.zipIdx result) result, entry < 256 by
    refine hfrom 0 _ fun entry hentry => ?_
    rw [List.eq_of_mem_replicate hentry]
    decide
  induction p with
  | nil => exact fun i result h => h
  | cons n p ih =>
    intro i result h
    rw [List.forall_mem_cons] at hp
    rw [List.zipIdx_cons, List.foldl_cons]
    exact ih hp.2 (i + 1) _ (addRow_lt hp.1 i _ h)

theorem divisor_lt (degree : Nat) : ∀ entry ∈ reedSolomonDivisor degree, entry < 256 := by
  suffices hfull : ∀ entry ∈ fullDivisor degree, entry < 256 from
    fun entry hentry => hfull entry (List.mem_of_mem_tail hentry)
  induction degree with
  | zero =>
    intro entry hentry
    rw [List.mem_singleton.mp hentry]
    decide
  | succ degree ih =>
    rw [fullDivisor, List.range_succ, List.foldl_append, List.foldl_cons, List.foldl_nil]
    exact polyMultiply_lt ih _

theorem remainder_lt {divisor data remainder : List Nat} (hdivisor : ∀ entry ∈ divisor, entry < 256)
    (h : reedSolomonRemainder data divisor = some remainder) : ∀ entry ∈ remainder, entry < 256 := by
  suffices hfrom : ∀ result, (∀ entry ∈ result, entry < 256) →
      data.foldlM (remainderStep divisor) result = some remainder → ∀ entry ∈ remainder, entry < 256 by
    refine hfrom _ (fun entry hentry => ?_) h
    rw [List.eq_of_mem_replicate hentry]
    decide
  clear h
  induction data with
  | nil =>
    rintro result hresult ⟨⟩
    exact hresult
  | cons byte data ih =>
    intro result hresult hrun
    rw [List.foldlM_cons] at hrun
    obtain ⟨next, hstep, hrest⟩ := Option.bind_eq_some_iff.mp hrun
    refine ih next ?_ hrest
    cases result with
    | nil => cases hstep
    | cons first rest =>
      obtain rfl := Option.some.inj hstep
      rw [← List.map_uncurry_zip_eq_zipWith]
      intro entry hentry
      obtain ⟨⟨old, coefficient⟩, hpair, rfl⟩ := List.mem_map.mp hentry
      obtain ⟨hold, hcoefficient⟩ := List.of_mem_zip hpair
      refine bitXor_lt ?_ (reedSolomonMultiply_lt (hdivisor coefficient hcoefficient) _)
      rcases List.mem_append.mp hold with hrest | hlast
      · exact hresult old (List.mem_cons_of_mem first hrest)
      · have hzero : old = 0 := List.mem_singleton.mp hlast
        subst hzero
        exact Nat.zero_lt_succ 255

end Space2.QrCode

/-!
# Codewords

The payload is padded to the capacity, cut into blocks of two lengths, and every
block gets its remainder. The blocks are written column by column as bits.
-/
namespace Space2.QrCode

open Space2.Base

def eccCodewordsPerBlock : List (List Nat) :=
  [[7, 10, 13, 17], [10, 16, 22, 28], [15, 26, 36, 44], [20, 36, 52, 64], [26, 48, 72, 88],
   [36, 64, 96, 112], [40, 72, 108, 130], [48, 88, 132, 156], [60, 110, 160, 192],
   [72, 130, 192, 224], [80, 150, 224, 264], [96, 176, 260, 308], [104, 198, 288, 352],
   [120, 216, 320, 384], [132, 240, 360, 432], [144, 280, 408, 480], [168, 308, 448, 532],
   [180, 338, 504, 588], [196, 364, 546, 650], [224, 416, 600, 700], [224, 442, 644, 750],
   [252, 476, 690, 816], [270, 504, 750, 900], [300, 560, 810, 960], [312, 588, 870, 1050],
   [336, 644, 952, 1110], [360, 700, 1020, 1200], [390, 728, 1050, 1260], [420, 784, 1140, 1350],
   [450, 812, 1200, 1440], [480, 868, 1290, 1530], [510, 924, 1350, 1620], [540, 980, 1440, 1710],
   [570, 1036, 1530, 1800], [570, 1064, 1590, 1890], [600, 1120, 1680, 1980],
   [630, 1204, 1770, 2100], [660, 1260, 1860, 2220], [720, 1316, 1950, 2310],
   [750, 1372, 2040, 2430]]

def numErrorCorrectionBlocks : List (List Nat) :=
  [[1, 1, 1, 1], [1, 1, 1, 1], [1, 1, 2, 2], [1, 2, 2, 4], [1, 2, 4, 4], [2, 4, 4, 4],
   [2, 4, 6, 5], [2, 4, 6, 6], [2, 5, 8, 8], [4, 5, 8, 8], [4, 5, 8, 11], [4, 8, 10, 11],
   [4, 9, 12, 16], [4, 9, 16, 16], [6, 10, 12, 18], [6, 10, 17, 16], [6, 11, 16, 19],
   [6, 13, 18, 21], [7, 14, 21, 25], [8, 16, 20, 25], [8, 17, 23, 25], [9, 17, 23, 34],
   [9, 18, 25, 30], [10, 20, 27, 32], [12, 21, 29, 35], [12, 23, 34, 37], [12, 25, 34, 40],
   [13, 26, 35, 42], [14, 28, 38, 45], [15, 29, 40, 48], [16, 31, 43, 51], [17, 33, 45, 54],
   [18, 35, 48, 57], [19, 37, 51, 60], [19, 38, 53, 63], [20, 40, 56, 66], [21, 43, 59, 70],
   [22, 45, 62, 74], [24, 47, 65, 77], [25, 49, 68, 81]]

/-- Versions and levels are counted from one. -/
def tableEntry (table : List (List Nat)) (version ecc : Nat) : Nat :=
  ((table[version - 1]?).bind fun row => row[ecc - 1]?).getD 0

def getNumRawDataModules (version : Nat) : Nat :=
  let num := 16 * version * version + 128 * version + 64
  let num :=
    if version ≥ 2 then
      let numAlign := version / 7 + 2
      num - 25 * (numAlign - 1) * (numAlign - 1) - 2 * 20 * (numAlign - 2)
    else num
  if version ≥ 7 then num - 36 else num

def getNumBlocks (version ecc : Nat) : Nat := tableEntry numErrorCorrectionBlocks version ecc

def getEccCodewordsPerBlock (version ecc : Nat) : Nat :=
  tableEntry eccCodewordsPerBlock version ecc / getNumBlocks version ecc

def totalCodewords (version : Nat) : Nat := getNumRawDataModules version / 8

def getDataCapacity (version ecc : Nat) : Nat :=
  totalCodewords version - tableEntry eccCodewordsPerBlock version ecc

/-! ## The padded payload -/

/-- Zeros up to a whole byte; fewer than eight are missing. -/
def align : Nat → List Nat → List Nat
  | 0, bits => bits
  | missing + 1, bits => if bits.length % 8 ≠ 0 then align missing (bits ++ [0]) else bits

/-- The bytes `0xec` and `0x11` in turn, up to the capacity. -/
def padTo (capacity : Nat) : Nat → Bool → List Nat → List Nat
  | 0, _, bits => bits
  | missing + 1, second, bits =>
    if bits.length / 8 < capacity then
      padTo capacity missing (!second) (appendBits bits (if second = true then 0x11 else 0xec) 8)
    else bits

def paddedBits (payloadBits : List Nat) (version ecc : Nat) : List Nat :=
  let dataCapacity := getDataCapacity version ecc
  let totalBits := dataCapacity * 8
  let terminator := min 4 (totalBits - payloadBits.length)
  padTo dataCapacity dataCapacity false (align 7 (payloadBits ++ List.replicate terminator 0))

/-- The bits are read eight at a time. -/
def toCodewords (bits : List Nat) : List Nat :=
  (List.range (bits.length / 8)).map fun i =>
    ((bits.drop (8 * i)).take 8).foldl (fun value bit => value * 2 + bit) 0

/-! ## Blocks -/

def shortBlockLen (version ecc : Nat) : Nat := totalCodewords version / getNumBlocks version ecc

def numShortBlocks (version ecc : Nat) : Nat :=
  getNumBlocks version ecc - totalCodewords version % getNumBlocks version ecc

def shortDataLen (version ecc : Nat) : Nat :=
  shortBlockLen version ecc - getEccCodewordsPerBlock version ecc

def dataLens (version ecc : Nat) : List Nat :=
  (List.range (getNumBlocks version ecc)).map fun block =>
    if block + 1 ≤ numShortBlocks version ecc then shortDataLen version ecc
    else shortDataLen version ecc + 1

def splitBlocks : List Nat → List Nat → List (List Nat)
  | [], _ => []
  | dataLen :: rest, codewords => codewords.take dataLen :: splitBlocks rest (codewords.drop dataLen)

def withEcc (divisor block : List Nat) : Option (List Nat) :=
  (reedSolomonRemainder block divisor).map fun ecc => block ++ ecc

def encodeCodewords (payloadBits : List Nat) (version ecc : Nat) : Option (List Nat) := do
  let dataCodewords := toCodewords (paddedBits payloadBits version ecc)
  let divisor := reedSolomonDivisor (getEccCodewordsPerBlock version ecc)
  let blocks ← (splitBlocks (dataLens version ecc) dataCodewords).mapM (withEcc divisor)
  let finalBits := (interleave blocks).foldl (fun bits byte => appendBits bits byte 8) []
  return finalBits ++ List.replicate (getNumRawDataModules version % 8) 0

end Space2.QrCode
