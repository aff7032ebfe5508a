import Mathlib.Tactic.FieldSimp
import Space2.Wallet.Hexadecimal

/-!
# Exact conversions of amounts

The base 64 text of the bytes is the standard one, an amount of ether that is formatted is read back,
and an amount that is read is its value times the number of wei in an ether.
-/
namespace Space2.Wallet
open Base

variable {text : Text} {bytes : List Nat} {n : Nat}

section Base64

theorem charAt_base64Alphabet {i : Nat} (h : i < 64) :
    charAt base64Alphabet i = [Base64.sextetChar i] := by
  have hall : ∀ i < 64, charAt base64Alphabet i = [Base64.sextetChar i] := by decide +kernel
  exact hall i h

theorem base64Group_eq {b1 b2 b3 : Nat} (count : Nat) (h1 : b1 < 256) (h2 : b2 < 256)
    (h3 : b3 < 256) :
    base64Group b1 b2 b3 count =
      [Base64.sextetChar (b1 / 4), Base64.sextetChar (b1 % 4 * 16 + b2 / 16)] ++
        if count < 2 then ['=', '=']
        else
          Base64.sextetChar (b2 % 16 * 4 + b3 / 64) ::
            if count < 3 then ['='] else [Base64.sextetChar (b3 % 64)] := by
  have hfirst : (b1 * 65536 + b2 * 256 + b3) / 262144 = b1 / 4 := by omega
  have hsecond : (b1 * 65536 + b2 * 256 + b3) / 4096 % 64 = b1 % 4 * 16 + b2 / 16 := by omega
  have hthird : (b1 * 65536 + b2 * 256 + b3) / 64 % 64 = b2 % 16 * 4 + b3 / 64 := by omega
  have hfourth : (b1 * 65536 + b2 * 256 + b3) % 64 = b3 % 64 := by omega
  simp only [base64Group, hfirst, hsecond, hthird, hfourth]
  rw [charAt_base64Alphabet (by omega), charAt_base64Alphabet (by omega),
    charAt_base64Alphabet (by omega), charAt_base64Alphabet (by omega)]
  rfl

theorem bytesToBase64_eq (h : ∀ byte ∈ bytes, byte < 256) :
    bytesToBase64 bytes = Base64.encode bytes := by
  induction bytes using bytesToBase64.induct with
  | case1 => rfl
  | case2 b1 =>
    have h1 := h b1 (by simp)
    rw [bytesToBase64, base64Group_eq 1 h1 (by decide) (by decide), Base64.encode_one h1]
    rfl
  | case3 b1 b2 =>
    have h1 := h b1 (by simp)
    have h2 := h b2 (by simp)
    rw [bytesToBase64, base64Group_eq 2 h1 h2 (by decide), Base64.encode_two h1 h2]
    rfl
  | case4 b1 b2 b3 rest ih =>
    simp only [List.forall_mem_cons] at h
    obtain ⟨h1, h2, h3, hrest⟩ := h
    rw [bytesToBase64, base64Group_eq _ h1 h2 h3, ih hrest, Base64.encode_three h1 h2 h3,
      if_neg (by omega), if_neg (by omega)]
    rfl

end Base64

section Ether

/-- The amount that a text denotes: a numeral, and a fraction after a point. -/
def amountValue (text : Text) : ℚ :=
  decimalValue ((trimSpace text).takeWhile (· ≠ '.')) +
    decimalValue ((trimSpace text).dropWhile (· ≠ '.')).tail /
      10 ^ ((trimSpace text).dropWhile (· ≠ '.')).tail.length

theorem ne_point {c : Char} (h : c.isDigit = true) : c ≠ '.' := by
  rintro rfl
  cases h

/-- An amount is its digits, with a point and digits after it or without. -/
theorem isAmount_cases (h : isAmount text = true) :
    ∃ intPart frac : Text, (∀ c ∈ intPart, c.isDigit = true) ∧ (∀ c ∈ frac, c.isDigit = true) ∧
      text.takeWhile Char.isDigit = intPart ∧ fracPart text = frac ∧
        (text = intPart ++ '.' :: frac ∨ text = intPart ∧ frac = []) := by
  have hint : ∀ c ∈ text.takeWhile Char.isDigit, c.isDigit = true :=
    fun c hc => List.mem_takeWhile_imp hc
  have hsplit : text.takeWhile Char.isDigit ++ text.dropWhile Char.isDigit = text :=
    List.takeWhile_append_dropWhile
  simp only [isAmount, Bool.and_eq_true] at h
  obtain ⟨-, hrest⟩ := h
  unfold fracPart
  cases hdrop : text.dropWhile Char.isDigit with
  | nil =>
    rw [hdrop, List.append_nil] at hsplit
    exact ⟨_, [], hint, by simp, rfl, rfl, .inr ⟨hsplit.symm, rfl⟩⟩
  | cons c rest =>
    simp only [hdrop, Bool.and_eq_true, decide_eq_true_eq, List.all_eq_true] at hrest
    obtain ⟨rfl, hdigits⟩ := hrest
    rw [hdrop] at hsplit
    refine ⟨_, rest, hint, hdigits, rfl, ?_, .inl hsplit.symm⟩
    cases rest with
    | nil => rfl
    | cons d rest =>
      have hsome : isDigits (d :: rest) = true := by simpa [isDigits] using hdigits
      exact if_pos hsome

theorem takeWhile_point {intPart : Text} (frac : Text) (h : ∀ c ∈ intPart, c.isDigit = true) :
    (intPart ++ '.' :: frac).takeWhile (· ≠ '.') = intPart ∧
      (intPart ++ '.' :: frac).dropWhile (· ≠ '.') = '.' :: frac := by
  have hall : ∀ c ∈ intPart, decide (c ≠ '.') = true := fun c hc =>
    decide_eq_true (ne_point (h c hc))
  constructor
  · rw [List.takeWhile_append_of_pos hall]
    simp
  · rw [List.dropWhile_append_of_pos hall]
    simp

/-- The denoted amount, read off its two parts. -/
theorem amountValue_eq {intPart frac : Text} (hint : ∀ c ∈ intPart, c.isDigit = true)
    (htext : trimSpace text = intPart ++ '.' :: frac ∨ trimSpace text = intPart ∧ frac = []) :
    amountValue text = decimalValue intPart + decimalValue frac / 10 ^ frac.length := by
  unfold amountValue
  rcases htext with htext | ⟨htext, rfl⟩
  · obtain ⟨htake, hdrop⟩ := takeWhile_point frac hint
    rw [htext, htake, hdrop, List.tail_cons]
  · have hall : ∀ c ∈ intPart, decide (c ≠ '.') = true := fun c hc =>
      decide_eq_true (ne_point (hint c hc))
    rw [htext, List.takeWhile_eq_self_iff.mpr hall, List.dropWhile_eq_nil_iff.mpr hall]
    rfl

theorem decimalValue_trimLeadingZeros (h : ∀ c ∈ text, c.isDigit = true) :
    decimalValue (trimLeadingZeros text) = decimalValue text := by
  rw [trimLeadingZeros_eq h, decimalValue_numeral]

theorem ethToWei_value {wei : Text} (h : ethToWei text = .ok wei) :
    (decimalValue wei : ℚ) = amountValue text * 10 ^ 18 := by
  simp only [ethToWei, bind_eq_ok, ensure_eq_ok, exists_const, pure_eq_ok] at h
  obtain ⟨hamount, hlength, rfl⟩ := h
  obtain ⟨intPart, frac, hint, hfrac, htake, hpart, htext⟩ := isAmount_cases hamount
  rw [hpart] at hlength
  have hdigits : ∀ c ∈ intPart ++ (frac ++ List.replicate (18 - frac.length) '0'),
      c.isDigit = true := by
    intro c hc
    rcases List.mem_append.mp hc with hc | hc
    · exact hint c hc
    · rcases List.mem_append.mp hc with hc | hc
      · exact hfrac c hc
      · rw [List.eq_of_mem_replicate hc]
        rfl
  have hpower : (10 : ℚ) ^ 18 = 10 ^ (18 - frac.length) * 10 ^ frac.length := by
    rw [← pow_add, Nat.sub_add_cancel hlength]
  rw [htake, hpart, decimalValue_trimLeadingZeros hdigits, amountValue_eq hint htext,
    decimalValue_append, decimalValue_append, decimalValue_zeros, List.length_append,
    List.length_replicate, Nat.add_sub_cancel' hlength]
  have hpower' : 10 ^ 18 = 10 ^ (18 - frac.length) * 10 ^ frac.length := by
    rw [← pow_add, Nat.sub_add_cancel hlength]
  rw [hpower, hpower']
  push_cast
  generalize (10 : ℚ) ^ (18 - frac.length) = padding
  have hne : (10 : ℚ) ^ frac.length ≠ 0 := pow_ne_zero _ (by norm_num)
  field_simp
  ring

/-- An amount with all its eighteen places. -/
theorem ethToWei_point {intPart frac : Text} (hint : isDigits intPart = true)
    (hfrac : isDigits frac = true) (hlength : frac.length = 18) :
    ethToWei (intPart ++ '.' :: frac) = .ok (trimLeadingZeros (intPart ++ frac)) := by
  have hintDigit : ∀ c ∈ intPart, c.isDigit = true := fun c hc => isDigit_of_isDigits hint hc
  have hfracDigit : ∀ c ∈ frac, c.isDigit = true := fun c hc => isDigit_of_isDigits hfrac hc
  have htrim : trimSpace (intPart ++ '.' :: frac) = intPart ++ '.' :: frac := by
    apply trimSpace_eq
    intro c hc
    rcases List.mem_append.mp hc with hc | hc
    · exact isSpace_of_isDigit (hintDigit c hc)
    · rcases List.mem_cons.mp hc with rfl | hc
      · rfl
      · exact isSpace_of_isDigit (hfracDigit c hc)
  have htake : (intPart ++ '.' :: frac).takeWhile Char.isDigit = intPart := by
    rw [List.takeWhile_append_of_pos hintDigit, List.takeWhile_cons_of_neg (by decide),
      List.append_nil]
  have hdrop : (intPart ++ '.' :: frac).dropWhile Char.isDigit = '.' :: frac := by
    rw [List.dropWhile_append_of_pos hintDigit, List.dropWhile_cons_of_neg (by decide)]
  have hne : intPart ≠ [] := by
    rintro rfl
    cases hint
  have hamount : isAmount (intPart ++ '.' :: frac) = true := by
    have hall : frac.all Char.isDigit = true := List.all_eq_true.mpr hfracDigit
    simp only [isAmount, htake, hdrop, hall, Bool.and_true, decide_true, decide_eq_true hne]
  have hpart : fracPart (intPart ++ '.' :: frac) = frac := by
    simp only [fracPart, hdrop, if_pos hfrac]
  simp only [ethToWei, htrim, htake, hpart, ensure, if_pos hamount, if_pos hlength.le, hlength,
    Nat.sub_self, List.replicate_zero, List.append_nil]
  rfl

theorem isDigits_numeral (n : Nat) : isDigits (numeral 10 n) = true :=
  digits_eq_numeral n ▸ isDigits_digits n

theorem ethToWei_formatEth (h : isDigits text = true) :
    ethToWei (formatEth text) = .ok (trimLeadingZeros text) := by
  have hcleaned : trimLeadingZeros text = numeral 10 (decimalValue text) :=
    trimLeadingZeros_eq fun c hc => isDigit_of_isDigits h hc
  have hdigits : ∀ l : Text, l ≠ [] → (∀ c ∈ l, c.isDigit = true) → isDigits l = true := by
    intro l hne hl
    simpa [isDigits, hne] using hl
  simp only [formatEth, hcleaned]
  generalize decimalValue text = n
  have hnumeral : ∀ c ∈ numeral 10 n, c.isDigit = true := fun c hc => isDigit_of_mem_numeral hc
  split_ifs with hshort
  · have hpadded : ∀ c ∈ List.replicate (18 - (numeral 10 n).length) '0' ++ numeral 10 n,
        c.isDigit = true := by
      intro c hc
      rcases List.mem_append.mp hc with hc | hc
      · rw [List.eq_of_mem_replicate hc]
        rfl
      · exact hnumeral c hc
    have hlength :
        (List.replicate (18 - (numeral 10 n).length) '0' ++ numeral 10 n).length = 18 := by
      rw [List.length_append, List.length_replicate, Nat.sub_add_cancel hshort]
    have hne : List.replicate (18 - (numeral 10 n).length) '0' ++ numeral 10 n ≠ [] := by
      intro hnil
      rw [hnil] at hlength
      cases hlength
    have hread := ethToWei_point (rfl : isDigits ['0'] = true) (hdigits _ hne hpadded) hlength
    rw [List.append_assoc]
    refine hread.trans (congrArg Except.ok ?_)
    rw [List.singleton_append, trimLeadingZeros_eq (List.forall_mem_cons.mpr ⟨rfl, hpadded⟩),
      ← List.cons_append, ← List.replicate_succ, decimalValue_append, decimalValue_zeros,
      Nat.mul_zero, Nat.zero_add, decimalValue_numeral]
  · have hlong : 18 < (numeral 10 n).length := Nat.lt_of_not_le hshort
    have htake : isDigits ((numeral 10 n).take ((numeral 10 n).length - 18)) = true := by
      refine hdigits _ ?_ fun c hc => hnumeral c (List.mem_of_mem_take hc)
      intro hnil
      have hlength := congrArg List.length hnil
      rw [List.length_take, List.length_nil] at hlength
      omega
    have hdropLength : ((numeral 10 n).drop ((numeral 10 n).length - 18)).length = 18 := by
      rw [List.length_drop]
      omega
    have hdrop : isDigits ((numeral 10 n).drop ((numeral 10 n).length - 18)) = true := by
      refine hdigits _ ?_ fun c hc => hnumeral c (List.mem_of_mem_drop hc)
      intro hnil
      rw [hnil] at hdropLength
      cases hdropLength
    rw [List.append_assoc, List.singleton_append, ethToWei_point htake hdrop hdropLength,
      List.take_append_drop, trimLeadingZeros_eq hnumeral, decimalValue_numeral]

/-- Amounts of any length are converted exactly. -/
theorem conversions_exact :
    (∀ d : Text, isDigits d = true →
      ∃ hex bytes, decimalToHex d = .ok hex ∧ hexToDecimal hex = .ok (trimLeadingZeros d) ∧
        decimalToBytes d = .ok bytes ∧ hexToBytes hex = .ok bytes ∧
        bytes = bigEndian 256 (decimalValue d) ∧
        decimalToBase64 d = .ok (Base64.encode bytes) ∧
        ethToWei (formatEth d) = .ok (trimLeadingZeros d)) ∧
    ∀ text wei : Text, ethToWei text = .ok wei →
      (decimalValue wei : ℚ) = amountValue text * 10 ^ 18 := by
  refine ⟨fun d hd => ?_, fun text wei h => ethToWei_value h⟩
  have htrimmed : trimLeadingZeros d = numeral 10 (decimalValue d) :=
    trimLeadingZeros_eq fun c hc => isDigit_of_isDigits hd hc
  refine ⟨_, _, decimalToHex_eq hd, ?_, decimalToBytes_eq hd, hexToBytes_eq _, rfl, ?_,
    ethToWei_formatEth hd⟩
  · rw [htrimmed]
    exact hexToDecimal_eq _
  · rw [decimalToBase64, decimalToBytes_eq hd, ← bytesToBase64_eq fun byte hbyte =>
      mem_bigEndian_lt (by decide) hbyte]
    rfl

/-- Two leading zeros before a wei more than an ether. -/
theorem conversions_exact_ether :
    (∃ hex bytes, decimalToHex "001000000000000000001".toList = .ok hex ∧
      hexToDecimal hex = .ok (trimLeadingZeros "001000000000000000001".toList) ∧
      decimalToBytes "001000000000000000001".toList = .ok bytes ∧ hexToBytes hex = .ok bytes ∧
      bytes = bigEndian 256 (decimalValue "001000000000000000001".toList) ∧
      decimalToBase64 "001000000000000000001".toList = .ok (Base64.encode bytes) ∧
      ethToWei (formatEth "001000000000000000001".toList) =
        .ok (trimLeadingZeros "001000000000000000001".toList)) ∧
    (decimalValue "1500000000000000000".toList : ℚ) = amountValue " 1.5".toList * 10 ^ 18 :=
  ⟨conversions_exact.1 _ (by decide), conversions_exact.2 _ _ (by decide)⟩

end Ether

end Space2.Wallet
