import Mathlib.Data.Nat.Digits.Lemmas
import Mathlib.Data.List.Induction
import Mathlib.Tactic.IntervalCases

/-!
# Numerals

The digits of a number with the most significant one first, as numbers and as characters. Zero has
no significant digit, and its numeral is a single zero. A digit is added at the end of a numeral by
one multiplication and one addition, and a text of digits without its leading zeros is the numeral
of its value.
-/
namespace Space2.Base

def bigEndian (b n : Nat) : List Nat := (Nat.digits b n).reverse

def significant (b n : Nat) : List Char := (bigEndian b n).map Nat.digitChar

def numeral (b n : Nat) : List Char := if n = 0 then ['0'] else significant b n

def decimalValue (text : List Char) : Nat := Nat.ofDigitChars 10 text 0

section Digits
variable {b n d : Nat}

@[simp] theorem bigEndian_zero : bigEndian b 0 = [] := by simp [bigEndian]

/-- One more digit at the end. -/
theorem bigEndian_step (hb : 1 < b) (hd : d < b) (h : n ≠ 0 ∨ d ≠ 0) :
    bigEndian b (b * n + d) = bigEndian b n ++ [d] := by
  rw [bigEndian, Nat.add_comm, Nat.digits_add b hb d n hd h.symm, List.reverse_cons, bigEndian]

theorem bigEndian_eq_nil : bigEndian b n = [] ↔ n = 0 := by
  rw [bigEndian, List.reverse_eq_nil_iff, Nat.digits_eq_nil_iff_eq_zero]

theorem mem_bigEndian_lt (hb : 1 < b) (hd : d ∈ bigEndian b n) : d < b :=
  Nat.digits_lt_base hb (List.mem_reverse.mp hd)

theorem length_bigEndian_le (hb : 1 < b) {k : Nat} : (bigEndian b n).length ≤ k ↔ n < b ^ k := by
  rw [bigEndian, List.length_reverse, Nat.digits_length_le_iff hb]

/-- Digits without a leading zero are those of their value. -/
theorem bigEndian_ofDigits {l : List Nat} (hb : 1 < b) (hl : ∀ d ∈ l, d < b)
    (hhead : l.head? ≠ some 0) : bigEndian b (Nat.ofDigits b l.reverse) = l := by
  rw [bigEndian, Nat.digits_ofDigits b hb l.reverse (fun d hd => hl d (List.mem_reverse.mp hd)),
    List.reverse_reverse]
  intro hne hlast
  rw [List.getLast_reverse] at hlast
  exact hhead (by rw [← hlast, List.head?_eq_some_head])

theorem bigEndian_head : (bigEndian b n).head? ≠ some 0 := by
  intro hhead
  rcases Nat.eq_zero_or_pos n with rfl | hn
  · simp at hhead
  · have hne : Nat.digits b n ≠ [] := Nat.digits_ne_nil_iff_ne_zero.mpr hn.ne'
    rw [bigEndian, List.head?_reverse, List.getLast?_eq_some_getLast hne] at hhead
    exact Nat.getLast_digit_ne_zero b hn.ne' (Option.some.inj hhead)

@[simp] theorem significant_zero : significant b 0 = [] := by simp [significant]

theorem significant_step (hb : 1 < b) (hd : d < b) (h : n ≠ 0 ∨ d ≠ 0) :
    significant b (b * n + d) = significant b n ++ [d.digitChar] := by
  rw [significant, bigEndian_step hb hd h, List.map_append, List.map_singleton, significant]

theorem significant_eq_nil : significant b n = [] ↔ n = 0 := by
  rw [significant, List.map_eq_nil_iff, bigEndian_eq_nil]

theorem numeral_eq (b n : Nat) :
    numeral b n = if significant b n = [] then ['0'] else significant b n := by
  simp only [numeral, significant_eq_nil]

theorem numeral_of_lt (h : n < b) : numeral b n = [n.digitChar] := by
  rcases Nat.eq_zero_or_pos n with rfl | hn
  · rfl
  · rw [numeral, if_neg hn.ne', significant, bigEndian, Nat.digits_of_lt b n hn.ne' h]
    rfl

end Digits

section Decimals
variable {text : List Char} {c : Char}

theorem digitChar_sub (h : c.isDigit = true) : (c.toNat - 48).digitChar = c := by
  obtain ⟨hlow, hhigh⟩ := Char.isDigit_iff_toNat.mp h
  have hvalue : c = Char.ofNat c.toNat := (Char.ofNat_toNat c).symm
  change 48 ≤ c.toNat at hlow
  change c.toNat ≤ 57 at hhigh
  rw [hvalue]
  interval_cases c.toNat <;> decide

theorem sub_lt_ten (h : c.isDigit = true) : c.toNat - 48 < 10 := by
  obtain ⟨-, hhigh⟩ := Char.isDigit_iff_toNat.mp h
  change c.toNat ≤ 57 at hhigh
  omega

theorem eq_zero_of_value (h : c.isDigit = true) (hzero : c.toNat - 48 = 0) : c = '0' := by
  rw [← digitChar_sub h, hzero]
  rfl

@[simp] theorem decimalValue_nil : decimalValue [] = 0 := Nat.ofDigitChars_nil

theorem decimalValue_concat (text : List Char) (c : Char) :
    decimalValue (text ++ [c]) = 10 * decimalValue text + (c.toNat - 48) := by
  rw [decimalValue, Nat.ofDigitChars_append, Nat.ofDigitChars_cons, Nat.ofDigitChars_nil]
  rfl

theorem decimalValue_append (text rest : List Char) :
    decimalValue (text ++ rest) = 10 ^ rest.length * decimalValue text + decimalValue rest := by
  rw [decimalValue, Nat.ofDigitChars_append, Nat.ofDigitChars_eq_ofDigitChars_zero]
  rfl

@[simp] theorem decimalValue_zeros (n : Nat) : decimalValue (List.replicate n '0') = 0 := by
  rw [decimalValue, Nat.ofDigitChars_replicate_zero, Nat.mul_zero]

/-- Leading zeros are all that a text of digits has beside the digits of its value. -/
theorem dropWhile_zeros (h : ∀ c ∈ text, c.isDigit = true) :
    text.dropWhile (· = '0') = significant 10 (decimalValue text) := by
  induction text using List.reverseRecOn with
  | nil => simp
  | append_singleton text c ih =>
    have hc : c.isDigit = true := h c (by simp)
    have htext := ih fun c hc => h c (List.mem_append_left _ hc)
    rw [decimalValue_concat]
    by_cases hzero : decimalValue text = 0
    · rw [hzero, significant_zero] at htext
      rw [List.dropWhile_append, htext, hzero]
      by_cases hdigit : c.toNat - 48 = 0
      · rw [eq_zero_of_value hc hdigit]
        simp
      · have hnonzero : c ≠ '0' := by
          rintro rfl
          exact hdigit rfl
        rw [significant_step (by decide) (sub_lt_ten hc) (.inr hdigit), digitChar_sub hc]
        simp [hnonzero]
    · have hne : text.dropWhile (· = '0') ≠ [] := by
        rw [htext]
        exact fun hnil => hzero (significant_eq_nil.mp hnil)
      rw [List.dropWhile_append, if_neg (by simpa using hne), htext,
        significant_step (by decide) (sub_lt_ten hc) (.inl hzero), digitChar_sub hc]

end Decimals

end Space2.Base
