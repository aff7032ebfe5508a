import Mathlib.Data.List.Basic
import Mathlib.Tactic.IntervalCases

/-!
# Base 64

The bits of the bytes, most significant first, are taken in groups of six, the last group filled
with zeros. Each group names a character, and the text is filled with `=` to groups of four.
-/
namespace Space2.Base.Base64

def byteBits (byte : Nat) : List Nat :=
  [byte / 128 % 2, byte / 64 % 2, byte / 32 % 2, byte / 16 % 2, byte / 8 % 2, byte / 4 % 2,
    byte / 2 % 2, byte % 2]

def bitsValue (bits : List Nat) : Nat := bits.foldl (fun value bit => 2 * value + bit) 0

/-- Groups of six bits, zeros added to the last. -/
def sextets : List Nat → List (List Nat)
  | b1 :: b2 :: b3 :: b4 :: b5 :: b6 :: rest => [b1, b2, b3, b4, b5, b6] :: sextets rest
  | [] => []
  | bits => [bits ++ List.replicate (6 - bits.length) 0]

/-- `A-Z`, `a-z`, `0-9`, `+` and `/` -/
def sextetChar (value : Nat) : Char :=
  if value < 26 then Char.ofNat (65 + value)
  else if value < 52 then Char.ofNat (97 + (value - 26))
  else if value < 62 then Char.ofNat (48 + (value - 52))
  else if value = 62 then '+'
  else '/'

def withPadding (text : List Char) : List Char :=
  text ++ List.replicate ((4 - text.length % 4) % 4) '='

def encode (bytes : List Nat) : List Char :=
  withPadding ((sextets (bytes.flatMap byteBits)).map fun bits => sextetChar (bitsValue bits))

section Groups
variable {b1 b2 b3 : Nat} {rest : List Nat}

theorem withPadding_four (c1 c2 c3 c4 : Char) (text : List Char) :
    withPadding (c1 :: c2 :: c3 :: c4 :: text) = c1 :: c2 :: c3 :: c4 :: withPadding text := by
  have hlength : (c1 :: c2 :: c3 :: c4 :: text).length % 4 = text.length % 4 := by
    simp only [List.length_cons]
    omega
  rw [withPadding, hlength]
  rfl

/-- A number is read bit by bit. -/
theorem next_bit (n d : Nat) : 2 * (n / (2 * d)) + n / d % 2 = n / d := by
  rw [Nat.mul_comm 2 d, ← Nat.div_div_eq_div_mul, Nat.div_add_mod]

/-- A number `high` read before is shifted to the left. -/
theorem next_bit_after (high k n d : Nat) :
    2 * (high * k + n / (2 * d)) + n / d % 2 = high * (2 * k) + n / d := by
  rw [Nat.mul_add, Nat.add_assoc, next_bit, Nat.mul_left_comm]

theorem sextet_first (h1 : b1 < 256) :
    bitsValue [b1 / 128 % 2, b1 / 64 % 2, b1 / 32 % 2, b1 / 16 % 2, b1 / 8 % 2, b1 / 4 % 2] =
      b1 / 4 := by
  have htop : 2 * 0 + b1 / 128 % 2 = b1 / 128 := by omega
  simp only [bitsValue, List.foldl_cons, List.foldl_nil, htop]
  rw [next_bit b1 64, next_bit b1 32, next_bit b1 16, next_bit b1 8, next_bit b1 4]

theorem sextet_second (b1 : Nat) (h2 : b2 < 256) :
    bitsValue [b1 / 2 % 2, b1 % 2, b2 / 128 % 2, b2 / 64 % 2, b2 / 32 % 2, b2 / 16 % 2] =
      b1 % 4 * 16 + b2 / 16 := by
  have htop : 2 * (2 * 0 + b1 / 2 % 2) + b1 % 2 = b1 % 4 := by omega
  have hnext : 2 * (b1 % 4) + b2 / 128 % 2 = b1 % 4 * 2 + b2 / 128 := by omega
  simp only [bitsValue, List.foldl_cons, List.foldl_nil, htop, hnext]
  rw [next_bit_after (b1 % 4) 2 b2 64, next_bit_after (b1 % 4) 4 b2 32,
    next_bit_after (b1 % 4) 8 b2 16]

theorem sextet_third (b2 : Nat) (h3 : b3 < 256) :
    bitsValue [b2 / 8 % 2, b2 / 4 % 2, b2 / 2 % 2, b2 % 2, b3 / 128 % 2, b3 / 64 % 2] =
      b2 % 16 * 4 + b3 / 64 := by
  have htop : 2 * (2 * 0 + b2 / 8 % 2) + b2 / 4 % 2 = b2 / 4 % 4 := by omega
  have hlow : 2 * (2 * (b2 / 4 % 4) + b2 / 2 % 2) + b2 % 2 = b2 % 16 := by omega
  have hnext : 2 * (b2 % 16) + b3 / 128 % 2 = b2 % 16 * 2 + b3 / 128 := by omega
  simp only [bitsValue, List.foldl_cons, List.foldl_nil, htop, hlow, hnext]
  rw [next_bit_after (b2 % 16) 2 b3 64]

theorem sextet_fourth (b3 : Nat) :
    bitsValue [b3 / 32 % 2, b3 / 16 % 2, b3 / 8 % 2, b3 / 4 % 2, b3 / 2 % 2, b3 % 2] = b3 % 64 := by
  have htop : 2 * (2 * 0 + b3 / 32 % 2) + b3 / 16 % 2 = b3 / 16 % 4 := by omega
  have hmiddle : 2 * (2 * (b3 / 16 % 4) + b3 / 8 % 2) + b3 / 4 % 2 = b3 / 4 % 16 := by omega
  have hlow : 2 * (2 * (b3 / 4 % 16) + b3 / 2 % 2) + b3 % 2 = b3 % 64 := by omega
  simp only [bitsValue, List.foldl_cons, List.foldl_nil, htop, hmiddle, hlow]

/-- Three bytes make four characters. -/
theorem encode_three (h1 : b1 < 256) (h2 : b2 < 256) (h3 : b3 < 256) :
    encode (b1 :: b2 :: b3 :: rest) =
      sextetChar (b1 / 4) :: sextetChar (b1 % 4 * 16 + b2 / 16) ::
        sextetChar (b2 % 16 * 4 + b3 / 64) :: sextetChar (b3 % 64) :: encode rest := by
  simp only [encode, List.flatMap_cons, byteBits, List.cons_append, List.nil_append, sextets,
    List.map_cons, sextet_first h1, sextet_second b1 h2, sextet_third b2 h3, sextet_fourth b3,
    withPadding_four]

/-- The bits that one byte lacks are those of a zero byte. -/
theorem encode_one (h1 : b1 < 256) :
    encode [b1] = [sextetChar (b1 / 4), sextetChar (b1 % 4 * 16), '=', '='] := by
  have hsecond : bitsValue [b1 / 2 % 2, b1 % 2, 0, 0, 0, 0] = b1 % 4 * 16 :=
    sextet_second b1 (Nat.zero_lt_succ 255)
  simp [encode, byteBits, sextets, sextet_first h1, hsecond, withPadding, List.replicate_succ]

theorem encode_two (h1 : b1 < 256) (h2 : b2 < 256) :
    encode [b1, b2] =
      [sextetChar (b1 / 4), sextetChar (b1 % 4 * 16 + b2 / 16), sextetChar (b2 % 16 * 4), '='] := by
  have hthird : bitsValue [b2 / 8 % 2, b2 / 4 % 2, b2 / 2 % 2, b2 % 2, 0, 0] = b2 % 16 * 4 :=
    sextet_third b2 (Nat.zero_lt_succ 255)
  simp [encode, byteBits, sextets, sextet_first h1, sextet_second b1 h2, hthird, withPadding,
    List.replicate_succ]

end Groups

end Space2.Base.Base64
