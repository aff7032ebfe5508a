import Space2.Base.ShiftProduct

/-!
# Bytes as a field

The bit operations are loops over the halves of two numbers. The product of bytes
adds shifted copies of one factor, and with it the bytes are the ring of
polynomials over the two-element field modulo `0x11d`.
-/
namespace Space2.QrCode

open Space2.Base

def bitXorFrom (result bit x y : Nat) : Nat :=
  if 0 < x ∨ 0 < y then
    bitXorFrom (if x % 2 ≠ y % 2 then result + bit else result) (bit * 2) (x / 2) (y / 2)
  else result
termination_by x + y
decreasing_by omega

def bitXor (a b : Nat) : Nat := bitXorFrom 0 1 a b

def bitAndFrom (result bit x y : Nat) : Nat :=
  if 0 < x ∧ 0 < y then
    bitAndFrom (if x % 2 = 1 ∧ y % 2 = 1 then result + bit else result) (bit * 2) (x / 2) (y / 2)
  else result
termination_by x + y
decreasing_by omega

def bitAnd (a b : Nat) : Nat := bitAndFrom 0 1 a b

def bitLshift (value shift : Nat) : Nat := value * 2 ^ shift
def bitRshift (value shift : Nat) : Nat := value / 2 ^ shift

def appendBits (buffer : List Nat) (value bitCount : Nat) : List Nat :=
  buffer ++ (List.range bitCount).reverse.map fun i => bitAnd (bitRshift value i) 1

/-- The passes of the product, with the values of `z`, `a` and `b`. -/
def multiplyFrom : Nat → Nat → Nat → Nat → Nat
  | 0, z, _, _ => z
  | passes + 1, z, a, b =>
    multiplyFrom passes (if bitAnd b 1 = 1 then bitXor z a else z)
      (if bitAnd a 0x80 = 0x80 then bitXor (bitLshift a 1) 0x11d else bitLshift a 1) (bitRshift b 1)

def reedSolomonMultiply (x y : Nat) : Nat := multiplyFrom 8 0 x y

/-! ## The loops are the bitwise operations -/

theorem bitXorFrom_eq (result bit x y : Nat) : bitXorFrom result bit x y = result + bit * (x ^^^ y) := by
  fun_induction bitXorFrom result bit x y with
  | case1 result bit x y _ ih =>
    have hdiv := Nat.xor_div_two (a := x) (b := y)
    have hmod := Nat.xor_mod_two_eq_one (a := x) (b := y)
    have hsplit : x ^^^ y = 2 * (x / 2 ^^^ y / 2) + (x ^^^ y) % 2 := by omega
    rw [dite_eq_ite] at ih
    by_cases hbits : x % 2 ≠ y % 2
    · have hone : (x ^^^ y) % 2 = 1 := by omega
      rw [ih, if_pos hbits, hsplit, hone]
      ring
    · have hzero : (x ^^^ y) % 2 = 0 := by omega
      rw [ih, if_neg hbits, hsplit, hzero]
      ring
  | case2 result bit x y hnone =>
    obtain ⟨rfl, rfl⟩ : x = 0 ∧ y = 0 := by omega
    rw [Nat.xor_zero, Nat.mul_zero, Nat.add_zero]

theorem bitXor_eq (a b : Nat) : bitXor a b = a ^^^ b := by
  rw [bitXor, bitXorFrom_eq, Nat.one_mul, Nat.zero_add]

theorem bitAndFrom_eq (result bit x y : Nat) : bitAndFrom result bit x y = result + bit * (x &&& y) := by
  fun_induction bitAndFrom result bit x y with
  | case1 result bit x y _ ih =>
    have hdiv := Nat.and_div_two (a := x) (b := y)
    have hmod := Nat.and_mod_two_eq_one (a := x) (b := y)
    have hsplit : x &&& y = 2 * (x / 2 &&& y / 2) + (x &&& y) % 2 := by omega
    rw [dite_eq_ite] at ih
    by_cases hbits : x % 2 = 1 ∧ y % 2 = 1
    · have hone : (x &&& y) % 2 = 1 := hmod.mpr hbits
      rw [ih, if_pos hbits, hsplit, hone]
      ring
    · have hzero : (x &&& y) % 2 = 0 := by
        have := mt hmod.mp hbits
        omega
      rw [ih, if_neg hbits, hsplit, hzero]
      ring
  | case2 result bit x y hnone =>
    have hzero : x &&& y = 0 := by
      rcases Nat.eq_zero_or_pos x with rfl | hx
      · exact Nat.zero_and y
      · obtain rfl : y = 0 := by omega
        exact Nat.and_zero x
    rw [hzero, Nat.mul_zero, Nat.add_zero]

theorem bitAnd_eq (a b : Nat) : bitAnd a b = a &&& b := by
  rw [bitAnd, bitAndFrom_eq, Nat.one_mul, Nat.zero_add]

theorem bitAnd_one (value : Nat) : bitAnd value 1 = value % 2 := by
  rw [bitAnd_eq, Nat.and_one_is_mod]

theorem appendBits_eq (buffer : List Nat) (value bitCount : Nat) : appendBits buffer value bitCount =
    buffer ++ (List.range bitCount).reverse.map fun i => value / 2 ^ i % 2 := by
  unfold appendBits bitRshift
  simp only [bitAnd_one]

/-! ## The ring of bytes -/

structure Gf where
  bits : BitVec 8
deriving DecidableEq

namespace Gf

@[ext] theorem ext' {x y : Gf} (h : x.bits = y.bits) : x = y := by
  cases x
  cases y
  exact congrArg Gf.mk h

instance : Zero Gf := ⟨⟨0⟩⟩
instance : One Gf := ⟨⟨1⟩⟩
instance : Add Gf := ⟨fun x y => ⟨x.bits ^^^ y.bits⟩⟩
instance : Neg Gf := ⟨id⟩

theorem bits_add (x y : Gf) : (x + y).bits = x.bits ^^^ y.bits := rfl

theorem add_self (x : Gf) : x + x = 0 := ext' (BitVec.xor_self)

instance : AddCommGroup Gf where
  add_assoc x y z := ext' (BitVec.xor_assoc x.bits y.bits z.bits)
  zero_add x := ext' (BitVec.zero_xor)
  add_zero x := ext' (BitVec.xor_zero)
  nsmul := nsmulRec
  zsmul := zsmulRec
  neg_add_cancel := add_self
  add_comm x y := ext' (BitVec.xor_comm x.bits y.bits)

/-- Times `X`: the polynomial `0x11d` takes the place of the bit that is shifted out. -/
def timesX (x : BitVec 8) : BitVec 8 := (x <<< 1) ^^^ (if x.msb = true then 0x1d else 0)

def shift : Gf →+ Gf where
  toFun x := ⟨timesX x.bits⟩
  map_zero' := rfl
  map_add' x y := by
    apply ext'
    change timesX (x.bits ^^^ y.bits) = timesX x.bits ^^^ timesX y.bits
    unfold timesX
    have hreduced : ∀ first second : Bool, (if (first ^^ second) = true then 0x1d else 0 : BitVec 8) =
        (if first = true then 0x1d else 0) ^^^ (if second = true then 0x1d else 0) := by decide
    rw [BitVec.shiftLeft_xor_distrib, BitVec.msb_xor, hreduced]
    ac_rfl

def bit (x : Gf) (k : Nat) : Bool := x.bits.getLsbD k

instance : Mul Gf := ⟨shiftProduct shift 8 bit⟩

theorem shifts_spell (y : Gf) : shiftSum shift 8 1 (bit y) = y := by
  obtain ⟨bits⟩ := y
  revert bits
  decide

instance : CommRing Gf where
  mul_assoc := shiftProduct_assoc shifts_spell
  one_mul := one_shiftProduct shifts_spell
  mul_one x := (shiftProduct_comm shifts_spell x 1).trans (one_shiftProduct shifts_spell x)
  left_distrib x y z := by
    change shiftProduct shift 8 bit x (y + z) = shiftProduct shift 8 bit x y + shiftProduct shift 8 bit x z
    rw [shiftProduct_comm shifts_spell, shiftProduct_add_left, shiftProduct_comm shifts_spell y,
      shiftProduct_comm shifts_spell z]
  right_distrib := shiftProduct_add_left
  zero_mul x := shiftSum_zero shift 8 (bit x)
  mul_zero x := (shiftProduct_comm shifts_spell x 0).trans (shiftSum_zero shift 8 (bit x))
  zsmul := zsmulRec
  neg_add_cancel := add_self
  mul_comm := shiftProduct_comm shifts_spell

/-- The generator is a root of the polynomial `0x11d`. -/
theorem root_of_polynomial : ((⟨2⟩ : Gf) ^ 8 + ⟨2⟩ ^ 4 + ⟨2⟩ ^ 3 + ⟨2⟩ ^ 2 + 1) = 0 := by decide

end Gf

/-! ## The loop computes the product -/

/-- The member a number stands for, by its low byte. -/
def gf (n : Nat) : Gf := ⟨BitVec.ofNat 8 n⟩

@[simp] theorem gf_zero : gf 0 = 0 := rfl
@[simp] theorem gf_one : gf 1 = 1 := rfl

theorem gf_xor (a b : Nat) : gf (bitXor a b) = gf a + gf b := by
  apply Gf.ext'
  rw [bitXor_eq]
  exact BitVec.ofNat_xor

theorem bit_gf {n k : Nat} (h : k < 8) : Gf.bit (gf n) k = n.testBit k := by
  change (BitVec.ofNat 8 n).getLsbD k = n.testBit k
  rw [BitVec.getLsbD_ofNat, decide_eq_true h, Bool.true_and]

theorem gf_shift (a : Nat) :
    gf (if bitAnd a 0x80 = 0x80 then bitXor (bitLshift a 1) 0x11d else bitLshift a 1) =
      Gf.shift (gf a) := by
  have hdouble : BitVec.ofNat 8 (bitLshift a 1) = BitVec.ofNat 8 a <<< 1 := by
    apply BitVec.eq_of_toNat_eq
    rw [BitVec.toNat_shiftLeft, BitVec.toNat_ofNat, BitVec.toNat_ofNat, Nat.shiftLeft_eq, bitLshift,
      Nat.mod_mul_mod]
  have hhigh : bitAnd a 0x80 = 0x80 ↔ (BitVec.ofNat 8 a).msb = true := by
    have hand := Nat.and_two_pow a 7
    have hbit := bit_gf (n := a) (k := 7) (by decide)
    rw [BitVec.msb_eq_getLsbD_last]
    change _ ↔ Gf.bit (gf a) 7 = true
    rw [hbit, bitAnd_eq]
    change a &&& 2 ^ 7 = 2 ^ 7 ↔ _
    rw [hand]
    cases a.testBit 7 <;> decide
  apply Gf.ext'
  change BitVec.ofNat 8 _ = Gf.timesX (BitVec.ofNat 8 a)
  unfold Gf.timesX
  split_ifs with hand hmsb hmsb
  · rw [bitXor_eq, BitVec.ofNat_xor, hdouble]
    rfl
  · exact absurd (hhigh.mp hand) hmsb
  · exact absurd (hhigh.mpr hmsb) hand
  · rw [hdouble]
    exact BitVec.xor_zero.symm

theorem gf_multiplyFrom (passes z a b : Nat) :
    gf (multiplyFrom passes z a b) = gf z + shiftSum Gf.shift passes (gf a) b.testBit := by
  induction passes generalizing z a b with
  | zero => exact (add_zero _).symm
  | succ passes ih =>
    have hlow : bitAnd b 1 = 1 ↔ b.testBit 0 = true := by
      rw [bitAnd_one, Nat.testBit_zero, decide_eq_true_iff]
    have hrest : (bitRshift b 1).testBit = fun k => b.testBit (k + 1) := by
      funext k
      rw [bitRshift, Nat.pow_one, Nat.testBit_succ]
    rw [multiplyFrom, ih, gf_shift, shiftSum, hrest, ← add_assoc]
    congr 1
    by_cases hbit : b.testBit 0 = true
    · rw [if_pos (hlow.mpr hbit), if_pos hbit, gf_xor]
    · rw [if_neg (mt hlow.mp hbit), if_neg hbit, add_zero]

/-- The loop computes the product of the ring, for all numbers. -/
theorem gf_multiply (x y : Nat) : gf (reedSolomonMultiply x y) = gf x * gf y := by
  rw [reedSolomonMultiply, gf_multiplyFrom, gf_zero, zero_add]
  exact shiftSum_congr Gf.shift (fun k hk => (bit_gf hk).symm) (gf x)

theorem bitXor_lt {a b : Nat} (ha : a < 256) (hb : b < 256) : bitXor a b < 256 := by
  rw [bitXor_eq]
  exact Nat.xor_lt_two_pow (n := 8) ha hb

theorem multiplyFrom_lt (passes : Nat) {z a : Nat} (hz : z < 256) (ha : a < 256) (b : Nat) :
    multiplyFrom passes z a b < 256 := by
  induction passes generalizing z a b with
  | zero => exact hz
  | succ passes ih =>
    rw [multiplyFrom]
    refine ih ?_ ?_ _
    · split_ifs
      · exact bitXor_lt hz ha
      · exact hz
    · revert a
      simp only [bitAnd_eq, bitXor_eq, bitLshift]
      decide +kernel

theorem reedSolomonMultiply_lt {x : Nat} (hx : x < 256) (y : Nat) : reedSolomonMultiply x y < 256 :=
  multiplyFrom_lt 8 (by decide) hx y

end Space2.QrCode
