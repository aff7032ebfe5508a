import Space2.Base.Checks
import Space2.Base.LuaText

/-!
# Amounts of a wallet transaction

Amounts have any number of digits, so they are texts, and arithmetic on them goes digit by digit. The
quotients of the code are floors of floating point divisions of small integers, which are exact. The
loops that divide a numeral until it is zero make one division for each of its digits at most.
-/
namespace Space2.Wallet
open Base

def base64Alphabet : Text :=
  "ABCDEFGHIJKLMNOPQRSTUVWXYZabcdefghijklmnopqrstuvwxyz0123456789+/".toList

def trimLeadingZeros (value : Text) : Text :=
  let trimmed := value.dropWhile (· = '0')
  if trimmed = [] then ['0'] else trimmed

/-- `%s` -/
def isSpace (c : Char) : Bool := c = ' ' || (9 ≤ c.toNat && c.toNat ≤ 13)

def trimSpace (value : Text) : Text := (value.dropWhile isSpace).rdropWhile isSpace

def normalizeDecimal (value : Text) : Except String Text := do
  ensure (trimSpace value ≠ []) "decimal value required"
  ensure (isDigits (trimSpace value) = true) "decimal value must be digits"
  return trimLeadingZeros (trimSpace value)

/-- One turn of the long division, on the quotient so far and the remainder. -/
def divideDigit (divisor : Nat) (s : Text × Nat) (c : Char) : Text × Nat :=
  let acc := s.2 * 10 + (c.toNat - 48)
  let q := acc / divisor
  (if s.1 ≠ [] ∨ q ≠ 0 then s.1 ++ digits q else s.1, acc - q * divisor)

def decimalDivide (value : Text) (divisor : Nat) : Text × Nat :=
  let result := value.foldl (divideDigit divisor) ([], 0)
  (if result.1 = [] then ['0'] else result.1, result.2)

def outOfDivisions : String := "more divisions than digits"

/-- The remainders of a numeral that is divided until it is zero. -/
def remainders (divisor : Nat) : Nat → Text → Except String (List Nat)
  | divisions, current =>
    if current = ['0'] then return []
    else
      match divisions with
      | 0 => throw outOfDivisions
      | divisions + 1 => do
        let rest ← remainders divisor divisions (decimalDivide current divisor).1
        return (decimalDivide current divisor).2 :: rest

def decimalToBytes (value : Text) : Except String (List Nat) := do
  let normalized ← normalizeDecimal value
  if normalized = ['0'] then return []
  else
    let bytes ← remainders 256 normalized.length normalized
    return bytes.reverse

def hexDigitValue (c : Char) : Except String Nat :=
  let byte := c.toNat
  if 48 ≤ byte ∧ byte ≤ 57 then return byte - 48
  else if 65 ≤ byte ∧ byte ≤ 70 then return 10 + (byte - 65)
  else if 97 ≤ byte ∧ byte ≤ 102 then return 10 + (byte - 97)
  else throw ("Invalid hex digit " ++ String.singleton c)

/-- `string.gsub value "^0x" ""` -/
def strip0x : Text → Text
  | '0' :: 'x' :: rest => rest
  | value => value

def bytePairs : Text → Except String (List Nat)
  | hi :: lo :: rest => do
    let hi ← hexDigitValue hi
    let lo ← hexDigitValue lo
    let bytes ← bytePairs rest
    return (hi * 16 + lo) :: bytes
  | _ => return []

def hexToBytes (value : Text) : Except String (List Nat) :=
  let trimmed := (strip0x value).dropWhile (· = '0')
  if trimmed.length % 2 = 1 then bytePairs ('0' :: trimmed) else bytePairs trimmed

/-- `string.sub text (+ i 1) (+ i 1)` -/
def charAt (text : Text) (i : Nat) : Text := (text.drop i).take 1

/-- One turn of the loop: three bytes, of which the first so many are there. -/
def base64Group (b1 b2 b3 count : Nat) : Text :=
  let triple := b1 * 65536 + b2 * 256 + b3
  charAt base64Alphabet (triple / 262144) ++ charAt base64Alphabet (triple / 4096 % 64) ++
    if count < 2 then ['=', '=']
    else
      charAt base64Alphabet (triple / 64 % 64) ++
        if count < 3 then ['='] else charAt base64Alphabet (triple % 64)

def bytesToBase64 : List Nat → Text
  | [] => []
  | [b1] => base64Group b1 0 0 1
  | [b1, b2] => base64Group b1 b2 0 2
  | b1 :: b2 :: b3 :: rest => base64Group b1 b2 b3 (rest.length + 3) ++ bytesToBase64 rest

def hexToBase64 (value : Text) : Except String Text := bytesToBase64 <$> hexToBytes value

def decimalToBase64 (value : Text) : Except String Text := bytesToBase64 <$> decimalToBytes value

def hexDigits : Text := "0123456789abcdef".toList

/-- Each digit goes in front of those before. -/
def decimalToHex (value : Text) : Except String Text := do
  let normalized ← normalizeDecimal value
  if normalized = ['0'] then return "0x0".toList
  else
    let digits ← remainders 16 normalized.length normalized
    return "0x".toList ++ digits.foldl (fun out remainder => charAt hexDigits remainder ++ out) []

/-- The inner loops of `hex-to-decimal`: the digits times 16 with a carry, the lowest digit first,
and what is left of the carry. -/
def carryThrough : List Nat → Nat → List Nat × Nat
  | [], carry => ([], carry)
  | d :: ds, carry =>
    let total := d * 16 + carry
    (total % 10 :: (carryThrough ds (total / 10)).1, (carryThrough ds (total / 10)).2)

def spill (carry : Nat) : List Nat :=
  if carry = 0 then [] else carry % 10 :: spill (carry / 10)
termination_by carry

def pushHexDigit (digits : List Nat) (value : Nat) : List Nat :=
  (carryThrough digits value).1 ++ spill (carryThrough digits value).2

def hexToDecimal (hex : Text) : Except String Text := do
  let trimmed := strip0x (hex.map Char.toLower)
  let trimmed := if trimmed = [] then ['0'] else trimmed
  let digits ← trimmed.foldlM (fun digits c => pushHexDigit digits <$> hexDigitValue c) [0]
  return digits.reverse.flatMap Base.digits

def formatEth (decimal : Text) : Text :=
  let cleaned := trimLeadingZeros decimal
  if cleaned.length ≤ 18 then
    ['0', '.'] ++ List.replicate (18 - cleaned.length) '0' ++ cleaned
  else
    let split := cleaned.length - 18
    cleaned.take split ++ ['.'] ++ cleaned.drop split

def formatBalance (hex : Text) : Except String Text := do
  let decimal ← hexToDecimal hex
  return hex ++ " (".toList ++ formatEth decimal ++ " ETH)".toList

/-- `^%d+%.?%d*$` -/
def isAmount (text : Text) : Bool :=
  text.takeWhile Char.isDigit ≠ [] &&
    match text.dropWhile Char.isDigit with
    | [] => true
    | c :: rest => c = '.' && rest.all Char.isDigit

/-- `(or (string.match trimmed "^%d+%.(%d+)$") "")` -/
def fracPart (text : Text) : Text :=
  match text.dropWhile Char.isDigit with
  | '.' :: rest => if isDigits rest = true then rest else []
  | _ => []

def ethToWei (value : Text) : Except String Text := do
  let trimmed := trimSpace value
  ensure (isAmount trimmed = true) "ETH amount must be numeric"
  let intPart := trimmed.takeWhile Char.isDigit
  let frac := fracPart trimmed
  ensure (frac.length ≤ 18) "ETH amount supports up to 18 decimal places"
  return trimLeadingZeros (intPart ++ (frac ++ List.replicate (18 - frac.length) '0'))

end Space2.Wallet
