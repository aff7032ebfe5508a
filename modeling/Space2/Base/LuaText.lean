import Space2.Base.Double
import Space2.Base.LuaValue
import Mathlib.Data.Rat.Floor
import Mathlib.Tactic.FinCases

/-!
# Lua numbers and their texts

A Lua number is an integer of 64 bits or a double; the two compare by value. A
string is its list of characters. An integer is printed as its digits, a double
never so that it could be taken for an integer.
-/
namespace Space2.Base

abbrev Text := List Char

inductive Number
  | integer (value : Int64)
  | float (value : LuaNumber)
  deriving DecidableEq

namespace Number

def value : Number → LuaNumber
  | integer n => .finite n.toInt
  | float x => x

/-- `n = math.floor n`, which an infinite number satisfies as well. -/
def isIntegral (n : Number) : Bool :=
  match n.value with
  | .finite q => q == (⌊q⌋ : ℚ)
  | .infinite _ => true
  | .nan => false

def isPositive (n : Number) : Bool :=
  match n.value with
  | .finite q => 0 < q
  | .infinite negative => !negative
  | .nan => false

/-- `min ≤ n` and `n ≤ max` -/
def isBetween (min max : Int) (n : Number) : Bool :=
  match n.value with
  | .finite q => (min : ℚ) ≤ q && q ≤ (max : ℚ)
  | .infinite _ => false
  | .nan => false

def isZero (n : Number) : Bool := n.value == .finite 0

end Number

section Digits

def digits (n : Nat) : Text := Nat.toDigits 10 n

def isDigits (text : Text) : Bool := !text.isEmpty && text.all Char.isDigit

/-- `^[+-]?%d+$` -/
def isSignedDigits : Text → Bool
  | '+' :: rest => isDigits rest
  | '-' :: rest => isDigits rest
  | text => isDigits text

theorem isDigits_digits (n : Nat) : isDigits (digits n) = true := by
  simp only [isDigits, Bool.and_eq_true, List.all_eq_true, Bool.not_eq_true']
  refine ⟨List.isEmpty_eq_false_iff.mpr Nat.toDigits_ne_nil, ?_⟩
  intro c hc
  exact Nat.isDigit_of_mem_toDigits (by decide) (by decide) hc

theorem isDigit_of_isDigits {text : Text} (h : isDigits text = true) {c : Char} (hc : c ∈ text) :
    c.isDigit = true := by
  simp only [isDigits, Bool.and_eq_true, List.all_eq_true] at h
  exact h.2 c hc

theorem isSignedDigits_of_isDigits {text : Text} (h : isDigits text = true) :
    isSignedDigits text = true := by
  unfold isSignedDigits
  split
  · exact absurd (isDigit_of_isDigits h List.mem_cons_self) (by decide)
  · exact absurd (isDigit_of_isDigits h List.mem_cons_self) (by decide)
  · exact h

end Digits

section Printing

def integerText (n : Int) : Text :=
  if n < 0 then '-' :: digits n.natAbs else digits n.natAbs

/-- `n / unit`, ties to even. -/
def roundDiv (n unit : Nat) : Nat :=
  let quotient := n / unit
  let remainder := n % unit
  if 2 * remainder < unit ∨ (2 * remainder = unit ∧ quotient % 2 = 0) then quotient
  else quotient + 1

def exponentText (exponent : Nat) : Text :=
  'e' :: '+' :: (if exponent < 10 then '0' :: digits exponent else digits exponent)

/-- `%.14g` of a natural number with more than 14 digits. -/
def scientificText (n : Nat) : Text :=
  let exponent := (digits n).length - 1
  let rounded := roundDiv n (10 ^ (exponent - 13))
  let (mantissa, exponent) :=
    if rounded = 10 ^ 14 then (10 ^ 13, exponent + 1) else (rounded, exponent)
  match digits mantissa with
  | [] => exponentText exponent
  | first :: rest =>
    let fraction := (rest.reverse.dropWhile (· == '0')).reverse
    first :: (if fraction.isEmpty then [] else '.' :: fraction) ++ exponentText exponent

/-- The text of a double without a fraction: `.0` follows what could be taken for an integer. -/
def integralFloatText (n : Int) : Text :=
  (if n < 0 then ['-'] else []) ++
    if n.natAbs < 10 ^ 14 then digits n.natAbs ++ ['.', '0'] else scientificText n.natAbs

/-- `tostring` of a number that is its own floor; the sign of a zero is not kept. -/
def numberText : Number → Text
  | .integer n => integerText n.toInt
  | .float (.finite q) => integralFloatText ⌊q⌋
  | .float (.infinite negative) => if negative then ['-', 'i', 'n', 'f'] else ['i', 'n', 'f']
  | .float .nan => ['n', 'a', 'n']

end Printing

section Reading

/-- `tonumber` of a text of digits, with a sign or without: a double when no integer holds it. -/
def tonumber (text : Text) : Number :=
  let negative := text.head? == some '-'
  let n := Nat.ofDigitChars 10 (if negative || text.head? == some '+' then text.tail else text) 0
  if n < 2 ^ 63 ∨ (negative ∧ n = 2 ^ 63) then
    .integer (.ofInt (if negative then -n else n))
  else if roundNat n < 2 ^ 1024 then .float (.finite (toDouble (if negative then -n else n)))
  else .float (.infinite negative)

end Reading

section Integers

theorem isDigits_integerText {n : Int} (h : 0 ≤ n) : isDigits (integerText n) = true := by
  rw [integerText, if_neg (by omega)]
  exact isDigits_digits n.natAbs

theorem isSignedDigits_integerText (n : Int) : isSignedDigits (integerText n) = true := by
  unfold integerText
  split_ifs
  · exact isDigits_digits n.natAbs
  · exact isSignedDigits_of_isDigits (isDigits_digits n.natAbs)

theorem digits_head (n : Nat) : (digits n).head? ≠ some '-' ∧ (digits n).head? ≠ some '+' := by
  have hdigit : ∀ c, (digits n).head? = some c → c.isDigit = true := fun c hc =>
    isDigit_of_isDigits (isDigits_digits n) (List.mem_of_head? hc)
  exact ⟨fun h => absurd (hdigit _ h) (by decide), fun h => absurd (hdigit _ h) (by decide)⟩

theorem tonumber_integerText (n : Int64) : tonumber (integerText n.toInt) = .integer n := by
  have hlow := n.le_toInt
  have hhigh := n.toInt_lt
  unfold integerText
  split_ifs with hneg
  · have hread : Nat.ofDigitChars 10 (digits n.toInt.natAbs) 0 = n.toInt.natAbs :=
      Nat.ofDigitChars_ten_toDigits
    have hvalue : -(n.toInt.natAbs : Int) = n.toInt := by omega
    simp only [tonumber, List.head?_cons, beq_self_eq_true, Bool.true_or, if_true, List.tail_cons,
      hread, true_and]
    rw [if_pos (by omega), hvalue, Int64.ofInt_toInt]
  · obtain ⟨hminus, hplus⟩ := digits_head n.toInt.natAbs
    have hread : Nat.ofDigitChars 10 (digits n.toInt.natAbs) 0 = n.toInt.natAbs :=
      Nat.ofDigitChars_ten_toDigits
    have hvalue : (n.toInt.natAbs : Int) = n.toInt := by omega
    have hminus' : ((digits n.toInt.natAbs).head? == some '-') = false := by simpa using hminus
    have hplus' : ((digits n.toInt.natAbs).head? == some '+') = false := by simpa using hplus
    simp only [tonumber, hminus', hplus', Bool.or_self, Bool.false_eq_true, if_false, hread,
      false_and, or_false]
    rw [if_pos (by omega), hvalue, Int64.ofInt_toInt]

end Integers

section Characters

/-- What a number's text is made of. -/
def isNumberChar (c : Char) : Bool :=
  c.isDigit || c == '-' || c == '+' || c == '.' || c == 'e' || c == 'i' || c == 'n' || c == 'f' ||
    c == 'a'

theorem isNumberChar_of_isDigit {c : Char} (h : c.isDigit = true) : isNumberChar c = true := by
  simp [isNumberChar, h]

theorem isNumberChar_of_mem_digits {n : Nat} {c : Char} (h : c ∈ digits n) :
    isNumberChar c = true :=
  isNumberChar_of_isDigit (isDigit_of_isDigits (isDigits_digits n) h)

theorem isNumberChar_of_mem_exponentText {exponent : Nat} {c : Char}
    (h : c ∈ exponentText exponent) : isNumberChar c = true := by
  unfold exponentText at h
  simp only [List.mem_cons] at h
  rcases h with rfl | rfl | h
  · decide
  · decide
  · split_ifs at h
    · rcases List.mem_cons.mp h with rfl | h
      · decide
      · exact isNumberChar_of_mem_digits h
    · exact isNumberChar_of_mem_digits h

theorem scientificText_spec (n : Nat) :
    (∀ c ∈ scientificText n, isNumberChar c = true) ∧ 'e' ∈ scientificText n := by
  unfold scientificText
  dsimp only
  generalize (if roundDiv n (10 ^ ((digits n).length - 1 - 13)) = 10 ^ 14 then _ else _) = parts
  obtain ⟨mantissa, exponent⟩ := parts
  have hexponent : 'e' ∈ exponentText exponent := List.mem_cons_self
  dsimp only
  split
  · exact ⟨fun c hc => isNumberChar_of_mem_exponentText hc, hexponent⟩
  · next first rest hmantissa =>
    constructor
    · intro c hc
      have hdigit : ∀ c ∈ first :: rest, isNumberChar c = true := fun c hmem =>
        isNumberChar_of_mem_digits (hmantissa ▸ hmem)
      rcases List.mem_append.mp hc with hc | hc
      · rcases List.mem_cons.mp hc with rfl | hc
        · exact hdigit c List.mem_cons_self
        · split_ifs at hc
          · simp at hc
          · rcases List.mem_cons.mp hc with rfl | hc
            · decide
            · have hrest : c ∈ rest := by
                have hkept := List.dropWhile_subset _ (List.mem_reverse.mp hc)
                exact List.mem_reverse.mp hkept
              exact hdigit c (List.mem_cons_of_mem _ hrest)
      · exact isNumberChar_of_mem_exponentText hc
    · exact List.mem_cons_of_mem _ (List.mem_append_right _ hexponent)

theorem integralFloatText_spec (n : Int) :
    (∀ c ∈ integralFloatText n, isNumberChar c = true) ∧
      ('.' ∈ integralFloatText n ∨ 'e' ∈ integralFloatText n) := by
  unfold integralFloatText
  have hsign : ∀ c ∈ (if n < 0 then ['-'] else []), isNumberChar c = true := by
    intro c hc
    split_ifs at hc
    · obtain rfl := List.mem_singleton.mp hc
      decide
    · simp at hc
  generalize (if n < 0 then ['-'] else []) = sign at hsign ⊢
  split_ifs with hsmall
  · refine ⟨?_, .inl (List.mem_append_right _ (List.mem_append_right _ List.mem_cons_self))⟩
    intro c hc
    rcases List.mem_append.mp hc with hc | hc
    · exact hsign c hc
    · rcases List.mem_append.mp hc with hc | hc
      · exact isNumberChar_of_mem_digits hc
      · fin_cases hc <;> decide
  · obtain ⟨hchars, he⟩ := scientificText_spec n.natAbs
    refine ⟨?_, .inr (List.mem_append_right _ he)⟩
    intro c hc
    rcases List.mem_append.mp hc with hc | hc
    · exact hsign c hc
    · exact hchars c hc

theorem isNumberChar_of_mem_numberText {n : Number} {c : Char} (h : c ∈ numberText n) :
    isNumberChar c = true := by
  cases n with
  | integer n =>
    rw [numberText, integerText] at h
    split_ifs at h
    · rcases List.mem_cons.mp h with rfl | h
      · decide
      · exact isNumberChar_of_mem_digits h
    · exact isNumberChar_of_mem_digits h
  | float x =>
    cases x with
    | finite q => exact (integralFloatText_spec ⌊q⌋).1 c h
    | infinite negative =>
      have hchars : (numberText (.float (.infinite negative))).all isNumberChar = true := by
        cases negative <;> rfl
      exact List.all_eq_true.1 hchars c h
    | nan =>
      have hchars : (numberText (.float .nan)).all isNumberChar = true := rfl
      exact List.all_eq_true.1 hchars c h

theorem sign_or_digit {text : Text} (h : isSignedDigits text = true) {c : Char} (hc : c ∈ text) :
    c = '+' ∨ c = '-' ∨ c.isDigit = true := by
  unfold isSignedDigits at h
  split at h
  · rcases List.mem_cons.mp hc with rfl | hc
    · exact .inl rfl
    · exact .inr (.inr (isDigit_of_isDigits h hc))
  · rcases List.mem_cons.mp hc with rfl | hc
    · exact .inr (.inl rfl)
    · exact .inr (.inr (isDigit_of_isDigits h hc))
  · exact .inr (.inr (isDigit_of_isDigits h hc))

/-- Only the text of an integer can be read as one. -/
theorem isSignedDigits_numberText {n : Number} :
    isSignedDigits (numberText n) = true ↔ ∃ i, n = .integer i := by
  constructor
  · intro h
    cases n with
    | integer i => exact ⟨i, rfl⟩
    | float x =>
      exfalso
      have hnever : ∀ c ∈ ['.', 'e', 'i', 'n'], c ∉ numberText (.float x) := by
        intro c hc hmem
        fin_cases hc <;> rcases sign_or_digit h hmem with h | h | h <;> revert h <;> decide
      cases x with
      | finite q =>
        rcases (integralFloatText_spec ⌊q⌋).2 with hdot | he
        · exact hnever '.' (by simp) hdot
        · exact hnever 'e' (by simp) he
      | infinite negative => exact hnever 'i' (by simp) (by cases negative <;> simp [numberText])
      | nan => exact hnever 'n' (by simp) (by simp [numberText])
  · rintro ⟨i, rfl⟩
    exact isSignedDigits_integerText i.toInt

end Characters

end Space2.Base
