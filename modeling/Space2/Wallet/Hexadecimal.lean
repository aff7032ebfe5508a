import Space2.Wallet.Division

/-!
# Hexadecimal amounts

Pairs of hexadecimal digits are bytes, and a multiplication by 16 with carries over the decimal
digits reads one more hexadecimal digit. A numeral in hexadecimal gives the bytes and the decimal
numeral of its value.
-/
namespace Space2.Wallet
open Base

variable {n d : Nat} {l : List Nat}

theorem hexDigitValue_digitChar (h : d < 16) : hexDigitValue d.digitChar = .ok d := by
  interval_cases d <;> rfl

theorem strip0x_append (text : Text) : strip0x ("0x".toList ++ text) = text := rfl

section Bytes

/-- The bytes of an even number of hexadecimal digits. -/
def pairs : List Nat → List Nat
  | [] => []
  | [_] => []
  | hi :: lo :: rest => (hi * 16 + lo) :: pairs rest

theorem bytePairs_map (h : ∀ d ∈ l, d < 16) :
    bytePairs (l.map Nat.digitChar) = .ok (pairs l) := by
  induction l using pairs.induct with
  | case1 => rfl
  | case2 d => rfl
  | case3 hi lo rest ih =>
    simp only [List.forall_mem_cons] at h
    obtain ⟨hhi, hlo, hrest⟩ := h
    simp only [List.map_cons, bytePairs, hexDigitValue_digitChar hhi, hexDigitValue_digitChar hlo,
      ih hrest, pairs]
    rfl

/-- The bytes have the value of the digits. -/
theorem ofDigits_pairs (h : l.length % 2 = 0) :
    Nat.ofDigits 256 (pairs l).reverse = Nat.ofDigits 16 l.reverse ∧
      l.length = 2 * (pairs l).length := by
  induction l using pairs.induct with
  | case1 => exact ⟨rfl, rfl⟩
  | case2 d => cases h
  | case3 hi lo rest ih =>
    obtain ⟨hvalue, hlength⟩ := ih (by simp only [List.length_cons] at h; omega)
    constructor
    · simp only [pairs, List.reverse_cons, Nat.ofDigits_append, Nat.ofDigits_singleton,
        List.length_append, List.length_reverse, List.length_singleton, hvalue, hlength]
      rw [pow_add, pow_mul]
      ring
    · simp only [pairs, List.length_cons, hlength]
      ring

theorem mem_pairs_lt (h : ∀ d ∈ l, d < 16) : ∀ byte ∈ pairs l, byte < 256 := by
  induction l using pairs.induct with
  | case1 => simp [pairs]
  | case2 d => simp [pairs]
  | case3 hi lo rest ih =>
    simp only [List.forall_mem_cons] at h
    obtain ⟨hhi, hlo, hrest⟩ := h
    rw [pairs, List.forall_mem_cons]
    exact ⟨by omega, ih hrest⟩

/-- An even number of digits, of which not both first ones are zero, gives the bytes of their
value. -/
theorem pairs_eq_bigEndian (h : ∀ d ∈ l, d < 16) (heven : l.length % 2 = 0)
    (hhead : l.take 2 ≠ [0, 0]) : pairs l = bigEndian 256 (Nat.ofDigits 16 l.reverse) := by
  rw [← (ofDigits_pairs heven).1]
  refine (bigEndian_ofDigits (by decide) (mem_pairs_lt h) ?_).symm
  intro hzero
  cases l using pairs.induct with
  | case1 => cases hzero
  | case2 d => cases hzero
  | case3 hi lo rest =>
    have hsum : hi * 16 + lo = 0 := Option.some.inj hzero
    obtain rfl : hi = 0 := by omega
    obtain rfl : lo = 0 := by omega
    exact hhead rfl

theorem ofDigits_bigEndian (b n : Nat) : Nat.ofDigits b (bigEndian b n).reverse = n := by
  rw [bigEndian, List.reverse_reverse, Nat.ofDigits_digits]

theorem dropWhile_numeral (n : Nat) :
    (numeral 16 n).dropWhile (· = '0') = (bigEndian 16 n).map Nat.digitChar := by
  rw [numeral]
  split_ifs with hzero
  · rw [hzero, bigEndian_zero]
    rfl
  · have hhead : (bigEndian 16 n).head? ≠ some 0 := bigEndian_head
    rw [significant]
    cases hdigits : bigEndian 16 n with
    | nil => rfl
    | cons d rest =>
      rw [hdigits] at hhead
      have hd : d ≠ 0 := fun hd => hhead (by rw [hd]; rfl)
      exact List.dropWhile_cons_of_neg (by simpa using hd)

theorem hexToBytes_eq (n : Nat) :
    hexToBytes ("0x".toList ++ numeral 16 n) = .ok (bigEndian 256 n) := by
  have hlt : ∀ d ∈ bigEndian 16 n, d < 16 := fun d hd => mem_bigEndian_lt (by decide) hd
  have hhead : (bigEndian 16 n).head? ≠ some 0 := bigEndian_head
  simp only [hexToBytes, strip0x_append, dropWhile_numeral, List.length_map]
  split_ifs with hodd
  · have hpadded : '0' :: (bigEndian 16 n).map Nat.digitChar =
        (0 :: bigEndian 16 n).map Nat.digitChar := rfl
    rw [hpadded, bytePairs_map (List.forall_mem_cons.mpr ⟨by decide, hlt⟩), pairs_eq_bigEndian
      (List.forall_mem_cons.mpr ⟨by decide, hlt⟩) (by simp only [List.length_cons]; omega)]
    · rw [List.reverse_cons, Nat.ofDigits_append, ofDigits_bigEndian]
      simp
    · intro hzeros
      apply hhead
      cases hdigits : bigEndian 16 n with
      | nil => simp [hdigits] at hzeros
      | cons d rest => simpa [hdigits] using hzeros
  · rw [bytePairs_map hlt, pairs_eq_bigEndian hlt (by omega), ofDigits_bigEndian]
    intro hzeros
    apply hhead
    cases hdigits : bigEndian 16 n with
    | nil => simp [hdigits] at hzeros
    | cons d rest =>
      rw [hdigits] at hzeros
      exact congrArg some (List.cons.inj hzeros).1

end Bytes

section Decimals

/-- The decimal digits, the lowest first, as `hex-to-decimal` keeps them. -/
def lowDigits (n : Nat) : List Nat := if n = 0 then [0] else Nat.digits 10 n

theorem spill_eq (carry : Nat) : spill carry = Nat.digits 10 carry := by
  induction carry using Nat.strongRecOn with
  | ind carry ih =>
    unfold spill
    split_ifs with hzero
    · rw [hzero, Nat.digits_zero]
    · have hpos : 0 < carry := Nat.pos_of_ne_zero hzero
      rw [ih (carry / 10) (Nat.div_lt_self hpos (by decide)), Nat.digits_def' (by decide) hpos]

/-- The digits and what is left of the carry have the value multiplied. -/
theorem carryThrough_value (digits : List Nat) (carry : Nat) :
    Nat.ofDigits 10 (carryThrough digits carry).1 +
        10 ^ (carryThrough digits carry).1.length * (carryThrough digits carry).2 =
      16 * Nat.ofDigits 10 digits + carry := by
  induction digits generalizing carry with
  | nil => simp [carryThrough]
  | cons d digits ih =>
    have hrest := ih ((d * 16 + carry) / 10)
    have htotal := Nat.div_add_mod (d * 16 + carry) 10
    simp only [carryThrough, Nat.ofDigits_cons, List.length_cons, Nat.cast_id]
    generalize (carryThrough digits ((d * 16 + carry) / 10)) = result at hrest ⊢
    have hpower : 10 ^ (result.1.length + 1) * result.2 = 10 * (10 ^ result.1.length * result.2) := by
      rw [pow_succ]
      ring
    rw [hpower]
    omega

theorem carryThrough_lt (digits : List Nat) (carry : Nat) :
    ∀ d ∈ (carryThrough digits carry).1, d < 10 := by
  induction digits generalizing carry with
  | nil => simp [carryThrough]
  | cons d digits ih =>
    rw [carryThrough, List.forall_mem_cons]
    exact ⟨Nat.mod_lt _ (by decide), ih _⟩

/-- A highest digit that is not zero leaves a carry. -/
theorem carryThrough_left {digits : List Nat} (hne : digits ≠ []) (carry : Nat)
    (hlast : digits.getLast hne ≠ 0) : (carryThrough digits carry).2 ≠ 0 := by
  induction digits generalizing carry with
  | nil => exact absurd rfl hne
  | cons d digits ih =>
    cases digits with
    | nil =>
      have hd : d ≠ 0 := hlast
      change (d * 16 + carry) / 10 ≠ 0
      omega
    | cons e digits =>
      rw [List.getLast_cons (List.cons_ne_nil e digits)] at hlast
      exact ih (List.cons_ne_nil e digits) _ hlast

theorem pushHexDigit_eq (n : Nat) (h : d < 16) :
    pushHexDigit (lowDigits n) d = lowDigits (16 * n + d) := by
  unfold pushHexDigit
  rw [spill_eq]
  by_cases hn : n = 0
  · subst hn
    have hcarried : carryThrough (lowDigits 0) d = ([d % 10], d / 10) := by
      simp [lowDigits, carryThrough]
    rw [hcarried, Nat.mul_zero, Nat.zero_add, lowDigits]
    split_ifs with hd
    · rw [hd]
      rfl
    · rw [Nat.digits_def' (by decide) (Nat.pos_of_ne_zero hd)]
      rfl
  · have hlow : lowDigits n = Nat.digits 10 n := if_neg hn
    have hne : lowDigits n ≠ [] := by
      rw [hlow]
      exact Nat.digits_ne_nil_iff_ne_zero.mpr hn
    have hlast : (lowDigits n).getLast hne ≠ 0 := by
      simp only [hlow]
      exact Nat.getLast_digit_ne_zero 10 hn
    have hvalue := carryThrough_value (lowDigits n) d
    have hleft := carryThrough_left hne d hlast
    have hlt := carryThrough_lt (lowDigits n) d
    rw [hlow, Nat.ofDigits_digits] at hvalue
    rw [hlow] at hleft hlt ⊢
    generalize carryThrough (Nat.digits 10 n) d = result at hvalue hleft hlt ⊢
    have htotal : Nat.ofDigits 10 (result.1 ++ Nat.digits 10 result.2) = 16 * n + d := by
      rw [Nat.ofDigits_append, Nat.ofDigits_digits, hvalue]
    have hdigits : ∀ e ∈ result.1 ++ Nat.digits 10 result.2, e < 10 := by
      intro e he
      rcases List.mem_append.mp he with hfirst | hrest
      · exact hlt e hfirst
      · exact Nat.digits_lt_base (by decide) hrest
    have hleftDigits : Nat.digits 10 result.2 ≠ [] := Nat.digits_ne_nil_iff_ne_zero.mpr hleft
    have htop : ∀ hne', (result.1 ++ Nat.digits 10 result.2).getLast hne' ≠ 0 := by
      intro hne'
      rw [List.getLast_append_of_right_ne_nil _ _ hleftDigits]
      exact Nat.getLast_digit_ne_zero 10 hleft
    rw [lowDigits, if_neg (by omega), ← htotal, Nat.digits_ofDigits 10 (by decide) _ hdigits htop]

/-- The digits of a numeral are read one after the other. -/
theorem foldl_bigEndian (n : Nat) : (bigEndian 16 n).foldl (fun v d => 16 * v + d) 0 = n := by
  have hvalue := ofDigits_bigEndian 16 n
  rw [Nat.ofDigits_eq_foldr, List.foldr_reverse] at hvalue
  simpa only [Nat.cast_id, Nat.add_comm] using hvalue

theorem foldlM_pushHexDigit (h : ∀ d ∈ l, d < 16) (n : Nat) :
    (l.map Nat.digitChar).foldlM (fun digits c => pushHexDigit digits <$> hexDigitValue c)
      (lowDigits n) = .ok (lowDigits (l.foldl (fun v d => 16 * v + d) n)) := by
  induction l generalizing n with
  | nil => rfl
  | cons d l ih =>
    obtain ⟨hd, hrest⟩ := List.forall_mem_cons.mp h
    rw [List.map_cons, List.foldlM_cons, hexDigitValue_digitChar hd]
    change List.foldlM _ (pushHexDigit (lowDigits n) d) _ = _
    rw [pushHexDigit_eq n hd]
    exact ih hrest (16 * n + d)

theorem lowDigits_text (n : Nat) : (lowDigits n).reverse.flatMap digits = numeral 10 n := by
  unfold lowDigits
  rw [numeral]
  split_ifs with hzero
  · rfl
  · rw [significant, bigEndian, List.map_eq_flatMap]
    refine List.flatMap_congr fun d hd => ?_
    rw [digits_eq_numeral]
    exact numeral_of_lt (mem_bigEndian_lt (by decide) hd)

theorem toLower_digitChar (h : d < 16) : d.digitChar.toLower = d.digitChar := by
  interval_cases d <;> decide

/-- A numeral has digits, also that of zero. -/
theorem numeral_digits (n : Nat) :
    ∃ l : List Nat, l ≠ [] ∧ (∀ d ∈ l, d < 16) ∧ numeral 16 n = l.map Nat.digitChar ∧
      l.foldl (fun v d => 16 * v + d) 0 = n := by
  by_cases hzero : n = 0
  · subst hzero
    exact ⟨[0], by decide, by decide, rfl, rfl⟩
  · refine ⟨bigEndian 16 n, mt bigEndian_eq_nil.mp hzero,
      fun d hd => mem_bigEndian_lt (by decide) hd, ?_, foldl_bigEndian n⟩
    rw [numeral, if_neg hzero, significant]

theorem hexToDecimal_eq (n : Nat) :
    hexToDecimal ("0x".toList ++ numeral 16 n) = .ok (numeral 10 n) := by
  obtain ⟨l, hne, hlt, hnumeral, hvalue⟩ := numeral_digits n
  have hlower : (l.map Nat.digitChar).map Char.toLower = l.map Nat.digitChar := by
    rw [List.map_map]
    exact List.map_congr_left fun d hd => toLower_digitChar (hlt d hd)
  have hlowered : ("0x".toList ++ l.map Nat.digitChar).map Char.toLower =
      "0x".toList ++ l.map Nat.digitChar := by
    rw [List.map_append, hlower]
    rfl
  have hsome : l.map Nat.digitChar ≠ [] := mt List.map_eq_nil_iff.mp hne
  have hread := foldlM_pushHexDigit hlt 0
  rw [hvalue] at hread
  simp only [hexToDecimal, hnumeral, hlowered, strip0x_append, if_neg hsome]
  change (List.foldlM _ (lowDigits 0) _ >>= _) = _
  rw [hread]
  exact congrArg Except.ok (lowDigits_text n)

end Decimals

end Space2.Wallet
