import Space2.Base.Base64
import Space2.Base.Numerals
import Space2.Wallet.TxUtils

/-!
# Amounts by division

The long division gives the numeral of the quotient and the remainder, so dividing until the numeral
is zero gives the digits in another base, the lowest first. A loop that makes one division for each
decimal digit always gets to zero, as the base is ten at least.
-/
namespace Space2.Wallet
open Base

variable {value : Text} {n divisor divisions : Nat}

section Texts

/-- A numeral is what the library prints. -/
theorem numeral_eq_toDigits {b : Nat} (hb : 1 < b) (n : Nat) : numeral b n = Nat.toDigits b n := by
  induction n using Nat.strongRecOn with
  | ind n ih =>
    rw [Nat.toDigits_eq_if hb]
    split_ifs with hlt
    · exact numeral_of_lt hlt
    · have hquotient : n / b ≠ 0 := Nat.div_ne_zero_iff.mpr ⟨by omega, Nat.le_of_not_lt hlt⟩
      have hn : n ≠ 0 := by
        rintro rfl
        simp at hquotient
      have hsmaller : n / b < n := Nat.div_lt_self (Nat.pos_of_ne_zero hn) hb
      rw [← ih (n / b) hsmaller, numeral, if_neg hn, numeral, if_neg hquotient,
        ← significant_step hb (Nat.mod_lt n (by omega)) (.inl hquotient), Nat.div_add_mod]

theorem digits_eq_numeral (n : Nat) : digits n = numeral 10 n :=
  (numeral_eq_toDigits (by decide) n).symm

@[simp] theorem decimalValue_numeral (n : Nat) : decimalValue (numeral 10 n) = n := by
  rw [← digits_eq_numeral]
  exact Nat.ofDigitChars_ten_toDigits

theorem isDigit_of_mem_numeral {c : Char} (h : c ∈ numeral 10 n) : c.isDigit = true :=
  isDigit_of_isDigits (isDigits_digits n) (digits_eq_numeral n ▸ h)

theorem numeral_eq_zero : numeral 10 n = ['0'] ↔ n = 0 := by
  constructor
  · intro h
    rw [← decimalValue_numeral n, h]
    rfl
  · rintro rfl
    rfl

theorem lt_pow_length (n : Nat) : n < 10 ^ (numeral 10 n).length := by
  rw [← length_bigEndian_le (by decide)]
  unfold numeral
  split_ifs with hzero
  · simp [hzero]
  · rw [significant, List.length_map]

/-- A text of digits without its leading zeros is the numeral of its value. -/
theorem trimLeadingZeros_eq (h : ∀ c ∈ value, c.isDigit = true) :
    trimLeadingZeros value = numeral 10 (decimalValue value) := by
  unfold trimLeadingZeros
  rw [dropWhile_zeros h, numeral_eq]

theorem isSpace_of_isDigit {c : Char} (h : c.isDigit = true) : isSpace c = false := by
  obtain ⟨hlow, -⟩ := Char.isDigit_iff_toNat.mp h
  change 48 ≤ c.toNat at hlow
  have hspace : c ≠ ' ' := by
    rintro rfl
    exact absurd hlow (by decide)
  have hcontrol : ¬ c.toNat ≤ 13 := by omega
  simp [isSpace, hspace, hcontrol]

theorem trimSpace_eq (h : ∀ c ∈ value, isSpace c = false) : trimSpace value = value := by
  have hfront : value.dropWhile isSpace = value := by
    cases value with
    | nil => rfl
    | cons c rest => exact List.dropWhile_cons_of_neg (by simp [h c List.mem_cons_self])
  rw [trimSpace, hfront, List.rdropWhile_eq_self_iff]
  intro hne
  simp [h _ (List.getLast_mem hne)]

theorem normalizeDecimal_eq (h : isDigits value = true) :
    normalizeDecimal value = .ok (numeral 10 (decimalValue value)) := by
  have hdigit := fun c hc => isDigit_of_isDigits h (c := c) hc
  have htrim : trimSpace value = value := trimSpace_eq fun c hc => isSpace_of_isDigit (hdigit c hc)
  have hne : value ≠ [] := by
    rintro rfl
    cases h
  simp only [normalizeDecimal, htrim, ensure, if_pos hne, if_pos h, trimLeadingZeros_eq hdigit]
  rfl

end Texts

section Divisions

/-- One digit is added to the number that is divided. -/
theorem divideDigit_eq {v : Nat} {c : Char} (hdivisor : 0 < divisor) (hc : c.isDigit = true) :
    divideDigit divisor (significant 10 (v / divisor), v % divisor) c =
      (significant 10 ((10 * v + (c.toNat - 48)) / divisor),
        (10 * v + (c.toNat - 48)) % divisor) := by
  have hdigit := sub_lt_ten hc
  unfold divideDigit
  dsimp only
  generalize c.toNat - 48 = digit at hdigit ⊢
  have hremainder : v % divisor < divisor := Nat.mod_lt v hdivisor
  have hsplit : 10 * v + digit = (v % divisor * 10 + digit) + divisor * (10 * (v / divisor)) := by
    conv_lhs => rw [← Nat.div_add_mod v divisor]
    ring
  have hq : (v % divisor * 10 + digit) / divisor < 10 := by
    apply Nat.div_lt_of_lt_mul
    omega
  rw [hsplit, Nat.add_mul_div_left _ _ hdivisor, Nat.add_mul_mod_self_left]
  generalize v % divisor * 10 + digit = acc at hq
  have hremainder' : acc - acc / divisor * divisor = acc % divisor := by
    rw [Nat.mul_comm, Nat.mod_eq_sub]
  have hdigits : digits (acc / divisor) = [(acc / divisor).digitChar] := by
    rw [digits_eq_numeral, numeral_of_lt hq]
  rw [hremainder', Nat.add_comm (acc / divisor), hdigits]
  simp only [ne_eq, significant_eq_nil]
  split_ifs with hsome
  · rw [significant_step (by decide) hq hsome]
  · obtain ⟨hquotient, hdigit'⟩ := not_or.mp hsome
    rw [not_not.mp hquotient, not_not.mp hdigit']

theorem decimalDivide_eq (hdivisor : 0 < divisor) (h : ∀ c ∈ value, c.isDigit = true) :
    decimalDivide value divisor =
      (numeral 10 (decimalValue value / divisor), decimalValue value % divisor) := by
  have hloop : value.foldl (divideDigit divisor) ([], 0) =
      (significant 10 (decimalValue value / divisor), decimalValue value % divisor) := by
    induction value using List.reverseRecOn with
    | nil => simp
    | append_singleton value c ih =>
      rw [List.foldl_append, ih fun c hc => h c (List.mem_append_left _ hc), List.foldl_cons,
        List.foldl_nil, divideDigit_eq hdivisor (h c (by simp)), decimalValue_concat]
  rw [decimalDivide, hloop, numeral_eq]

/-- The remainders of a numeral are its digits in the base that divides it. -/
theorem remainders_eq (hdivisor : 10 ≤ divisor) (h : n < 10 ^ divisions) :
    remainders divisor divisions (numeral 10 n) = .ok (Nat.digits divisor n) := by
  induction divisions generalizing n with
  | zero =>
    obtain rfl : n = 0 := Nat.lt_one_iff.mp h
    rw [remainders, if_pos (numeral_eq_zero.mpr rfl), Nat.digits_zero]
    rfl
  | succ divisions ih =>
    rw [remainders]
    by_cases hzero : n = 0
    · subst hzero
      rw [if_pos (numeral_eq_zero.mpr rfl), Nat.digits_zero]
      rfl
    · have hquotient : n / divisor < 10 ^ divisions := by
        apply Nat.div_lt_of_lt_mul
        calc n < 10 ^ divisions * 10 := h
          _ ≤ 10 ^ divisions * divisor := Nat.mul_le_mul_left _ hdivisor
          _ = divisor * 10 ^ divisions := Nat.mul_comm _ _
      have hdivide : decimalDivide (numeral 10 n) divisor = (numeral 10 (n / divisor), n % divisor) := by
        rw [decimalDivide_eq (by omega) fun c hc => isDigit_of_mem_numeral hc, decimalValue_numeral]
      rw [if_neg (mt numeral_eq_zero.mp hzero), hdivide]
      simp only [ih hquotient, Nat.digits_def' (show 1 < divisor by omega) (Nat.pos_of_ne_zero hzero)]
      rfl

theorem decimalToBytes_eq (h : isDigits value = true) :
    decimalToBytes value = .ok (bigEndian 256 (decimalValue value)) := by
  rw [decimalToBytes, normalizeDecimal_eq h]
  generalize decimalValue value = n
  change (if numeral 10 n = ['0'] then _ else _) = _
  split_ifs with hzero
  · rw [numeral_eq_zero.mp hzero, bigEndian_zero]
    rfl
  · rw [remainders_eq (by decide) (lt_pow_length n)]
    rfl

/-- Characters put in front of each other stand in the opposite order. -/
theorem foldl_prepend {α β : Type} (f : α → List β) (l : List α) (out : List β) :
    l.foldl (fun out a => f a ++ out) out = l.reverse.flatMap f ++ out := by
  induction l generalizing out with
  | nil => rfl
  | cons a l ih => simp [ih]

theorem charAt_hexDigits {d : Nat} (h : d < 16) : charAt hexDigits d = [d.digitChar] := by
  interval_cases d <;> decide

theorem decimalToHex_eq (h : isDigits value = true) :
    decimalToHex value = .ok ("0x".toList ++ numeral 16 (decimalValue value)) := by
  rw [decimalToHex, normalizeDecimal_eq h]
  generalize decimalValue value = n
  change (if numeral 10 n = ['0'] then _ else _) = _
  split_ifs with hzero
  · rw [numeral_eq_zero.mp hzero]
    rfl
  · have hn : n ≠ 0 := mt numeral_eq_zero.mpr hzero
    have hdigits : (Nat.digits 16 n).reverse.flatMap (charAt hexDigits) = significant 16 n := by
      rw [significant, List.map_eq_flatMap]
      exact List.flatMap_congr fun d hd => charAt_hexDigits (mem_bigEndian_lt (by decide) hd)
    rw [remainders_eq (by decide) (lt_pow_length n)]
    change Except.ok ("0x".toList ++ _) = _
    rw [foldl_prepend, hdigits, List.append_nil, numeral, if_neg hn]

end Divisions

end Space2.Wallet
