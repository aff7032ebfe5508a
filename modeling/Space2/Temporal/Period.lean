import Space2.Base.Checks
import Space2.Base.LuaText
import Mathlib

/-!
# Periods

A period has years, months, weeks and days, of one sign. Its fields are numbers without a fraction
that a double holds exactly; the number itself may be an integer or a double. A double is written
with a point or an exponent, which the text of a period does not allow.
-/
namespace Space2.Temporal
open Base

def maxSafePeriodField : Int := 9007199254740991

inductive PeriodKey
  | years | months | weeks | days
  deriving DecidableEq, Repr

namespace PeriodKey

def name : PeriodKey → String
  | years => "years"
  | months => "months"
  | weeks => "weeks"
  | days => "days"

def suffix : PeriodKey → Char
  | years => 'Y'
  | months => 'M'
  | weeks => 'W'
  | days => 'D'

/-- The keys in the order of a text. -/
def all : List PeriodKey := [years, months, weeks, days]

theorem mem_all (key : PeriodKey) : key ∈ all := by
  cases key <;> decide

theorem suffix_injective {key other : PeriodKey} (h : key.suffix = other.suffix) : key = other := by
  cases key <;> cases other <;> first | rfl | exact absurd h (by decide)

end PeriodKey

section Numbers

def negateNumber : Number → Number
  | .integer n => .integer (-n)
  | .float (.finite q) => .float (.finite (-q))
  | .float (.infinite negative) => .float (.infinite !negative)
  | .float .nan => .float .nan

/-- `math.abs` -/
def absNumber : Number → Number
  | .integer n => .integer (if n < 0 then -n else n)
  | .float (.finite q) => .float (.finite |q|)
  | .float (.infinite _) => .float (.infinite false)
  | .float .nan => .float .nan

/-- A sign times a number. -/
def signedNumber (negative : Bool) (n : Number) : Number :=
  match n with
  | .integer n => .integer ((if negative then -1 else 1) * n)
  | .float x => if negative then negateNumber (.float x) else .float x

def finiteInteger (n : Number) : Bool :=
  n.isBetween (-maxSafePeriodField) maxSafePeriodField && n.isIntegral

def fieldSign (n : Number) : Int :=
  if n.isPositive then 1 else if (negateNumber n).isPositive then -1 else 0

/-- The sign of the fields before is 0 as long as they are zero. -/
def assertConsistentSigns (sign : Int) : List Number → Except String Unit
  | [] => .ok ()
  | value :: rest =>
    if fieldSign value = 0 then assertConsistentSigns sign rest
    else if sign = 0 then assertConsistentSigns (fieldSign value) rest
    else if sign ≠ fieldSign value then .error "temporal period fields must not mix signs"
    else assertConsistentSigns sign rest

end Numbers

structure Period where
  field : PeriodKey → Number
  finite : ∀ key, finiteInteger (field key) = true
  signs : assertConsistentSigns 0 (PeriodKey.all.map field) = .ok ()

/-- The value of a part of a record. -/
inductive PartValue
  | number (value : Number)
  | string (text : String)
  | other (typeName : String)
  deriving DecidableEq

abbrev Parts := List (String × PartValue)

namespace Period

section Records

def validKey (key : String) : Bool := (PeriodKey.all.map PeriodKey.name).contains key

def fieldOrZero (parts : Parts) (key : PeriodKey) : PartValue :=
  (parts.lookup key.name).getD (.number (.integer 0))

def requireField (parts : Parts) (key : PeriodKey) :
    Except String { n : Number // finiteInteger n = true } :=
  match fieldOrZero parts key with
  | .number n =>
    if h : finiteInteger n = true then .ok ⟨n, h⟩
    else .error ("invalid temporal period field value: " ++ key.name)
  | _ => .error ("invalid temporal period field value: " ++ key.name)

def fieldsOf (years months weeks days : Number) : PeriodKey → Number
  | .years => years
  | .months => months
  | .weeks => weeks
  | .days => days

def consistentPeriod (years months weeks days : { n : Number // finiteInteger n = true }) :
    Except String Period :=
  match h : assertConsistentSigns 0 (PeriodKey.all.map (fieldsOf years months weeks days)) with
  | .ok () => .ok ⟨fieldsOf years months weeks days, fun key => by
      cases key
      · exact years.2
      · exact months.2
      · exact weeks.2
      · exact days.2, h⟩
  | .error e => .error e

/-- `from` -/
def fromParts (parts : Parts) : Except String Period := do
  parts.forM fun part =>
    ensure (validKey part.1 = true ∨ part.1 = "kind")
      ("invalid temporal period field: " ++ part.1)
  ensure (parts.lookup "kind" = none ∨ parts.lookup "kind" = some (.string "period"))
    "invalid temporal period kind"
  let years ← requireField parts .years
  let months ← requireField parts .months
  let weeks ← requireField parts .weeks
  let days ← requireField parts .days
  consistentPeriod years months weeks days

def partsOf (field : PeriodKey → Number) : Parts :=
  PeriodKey.all.map fun key => (key.name, .number (field key))

/-- The record of a period. -/
def parts (p : Period) : Parts := ("kind", .string "period") :: partsOf p.field

def negate (parts : Parts) : Except String Period := do
  let p ← fromParts parts
  fromParts (partsOf fun key => negateNumber (p.field key))

end Records

section Texts

def fieldText (field : PeriodKey → Number) (key : PeriodKey) : Text :=
  if (field key).isZero then [] else numberText (absNumber (field key)) ++ [key.suffix]

def isNegative (p : Period) : Bool :=
  PeriodKey.all.any fun key => fieldSign (p.field key) = -1

/-- `format` -/
def format (parts : Parts) : Except String Text := do
  let p ← fromParts parts
  let fields := PeriodKey.all.flatMap (fieldText p.field)
  pure (if fields = [] then ['P', '0', 'D']
    else (if p.isNegative then ['-'] else []) ++ 'P' :: fields)

def consumeComponent (suffix : Char) (text : Text) : Number × Text × Bool :=
  let amount := text.takeWhile Char.isDigit
  let remaining := text.drop amount.length
  if amount ≠ [] ∧ remaining.head? = some suffix then (tonumber amount, remaining.tail, true)
  else (.integer 0, text, false)

/-- `parse` -/
def parse (text : Text) : Except String Period := do
  let negative := text.head? == some '-'
  let unsigned := if negative then text.tail else text
  ensure (unsigned ≠ [] ∧ unsigned.head? ≠ some '-' ∧ '+' ∉ unsigned ∧ '.' ∉ unsigned ∧
    'T' ∉ unsigned) "invalid temporal period text"
  ensure (unsigned.head? = some 'P') "invalid temporal period text"
  let (years, afterYears, hasYears) := consumeComponent PeriodKey.years.suffix unsigned.tail
  let (months, afterMonths, hasMonths) := consumeComponent PeriodKey.months.suffix afterYears
  let (weeks, afterWeeks, hasWeeks) := consumeComponent PeriodKey.weeks.suffix afterMonths
  let (days, rest, hasDays) := consumeComponent PeriodKey.days.suffix afterWeeks
  ensure (rest = [] ∧ (hasYears || hasMonths || hasWeeks || hasDays) = true)
    "invalid temporal period text"
  fromParts (partsOf fun key => signedNumber negative (fieldsOf years months weeks days key))

end Texts

section Amounts
variable {n : Number} {k : Int}

/-- The whole number that a field stands for. -/
def amount (n : Number) : Int :=
  match n.value with
  | .finite q => ⌊q⌋
  | _ => 0

def IsInteger (n : Number) : Prop := ∃ value, n = .integer value

theorem amount_of_value (h : n.value = .finite (k : ℚ)) : amount n = k := by
  rw [amount, h]
  exact Int.floor_intCast k

theorem finiteInteger_iff : finiteInteger n = true ↔
    n.value = .finite (amount n : ℚ) ∧ -maxSafePeriodField ≤ amount n ∧
      amount n ≤ maxSafePeriodField := by
  unfold finiteInteger Number.isBetween Number.isIntegral amount
  cases n.value with
  | infinite negative => simp
  | nan => simp
  | finite q =>
    simp only [Bool.and_eq_true, decide_eq_true_eq, beq_iff_eq, LuaNumber.finite.injEq]
    constructor
    · rintro ⟨⟨hlow, hhigh⟩, hwhole⟩
      exact ⟨hwhole, Int.le_floor.mpr (by exact_mod_cast hlow),
        by exact_mod_cast hwhole ▸ hhigh⟩
    · rintro ⟨hwhole, hlow, hhigh⟩
      refine ⟨⟨?_, ?_⟩, hwhole⟩
      · rw [hwhole]
        exact_mod_cast hlow
      · rw [hwhole]
        exact_mod_cast hhigh

theorem value_of_integer {value : Int64} : (Number.integer value).value = .finite (value.toInt : ℚ) :=
  rfl

theorem amount_integer (value : Int64) : amount (.integer value) = value.toInt :=
  amount_of_value value_of_integer

theorem isZero_iff (h : finiteInteger n = true) : n.isZero = true ↔ amount n = 0 := by
  rw [Number.isZero, (finiteInteger_iff.mp h).1, beq_iff_eq, LuaNumber.finite.injEq]
  norm_cast

theorem isPositive_iff (h : n.value = .finite (k : ℚ)) : n.isPositive = true ↔ 0 < k := by
  rw [Number.isPositive, h]
  simp

theorem negateNumber_value (h : finiteInteger n = true) :
    (negateNumber n).value = .finite ((-amount n : Int) : ℚ) := by
  obtain ⟨hvalue, hlow, hhigh⟩ := finiteInteger_iff.mp h
  unfold maxSafePeriodField at hlow hhigh
  cases n with
  | integer value =>
    rw [amount_integer] at hlow hhigh ⊢
    have hneg : (-value).toInt = -value.toInt := by
      rw [Int64.toInt_neg, Int.bmod_eq_of_le (by omega) (by omega)]
    rw [negateNumber, value_of_integer, hneg]
  | float x =>
    cases x with
    | finite q =>
      have hq : q = (amount (.float (.finite q)) : ℚ) := LuaNumber.finite.inj hvalue
      change LuaNumber.finite (-q) = _
      rw [Int.cast_neg, ← hq]
    | infinite negative => cases hvalue
    | nan => cases hvalue

theorem amount_negateNumber (h : finiteInteger n = true) :
    amount (negateNumber n) = -amount n := amount_of_value (negateNumber_value h)

theorem finiteInteger_negateNumber (h : finiteInteger n = true) :
    finiteInteger (negateNumber n) = true := by
  obtain ⟨-, hlow, hhigh⟩ := finiteInteger_iff.mp h
  refine finiteInteger_iff.mpr ?_
  rw [amount_negateNumber h, negateNumber_value h]
  exact ⟨rfl, by omega, by omega⟩

theorem fieldSign_eq (h : finiteInteger n = true) : fieldSign n = (amount n).sign := by
  have hpositive := isPositive_iff (finiteInteger_iff.mp h).1
  have hnegative := isPositive_iff (negateNumber_value h)
  unfold fieldSign
  split_ifs with hpos hneg
  · exact (Int.sign_eq_one_of_pos (hpositive.mp hpos)).symm
  · have := hnegative.mp hneg
    exact (Int.sign_eq_neg_one_of_neg (by omega)).symm
  · have hzero : amount n = 0 := by
      have := mt hpositive.mpr hpos
      have := mt hnegative.mpr hneg
      omega
    rw [hzero]
    rfl

theorem absNumber_value (h : finiteInteger n = true) :
    (absNumber n).value = .finite ((|amount n| : Int) : ℚ) := by
  obtain ⟨hvalue, hlow, hhigh⟩ := finiteInteger_iff.mp h
  unfold maxSafePeriodField at hlow hhigh
  cases n with
  | integer value =>
    rw [amount_integer] at hlow hhigh ⊢
    have hneg : (-value).toInt = -value.toInt := by
      rw [Int64.toInt_neg, Int.bmod_eq_of_le (by omega) (by omega)]
    have hless : value < 0 ↔ value.toInt < 0 := Int64.lt_iff_toInt_lt
    rw [absNumber, value_of_integer]
    split_ifs with hsign
    · rw [hneg, abs_of_neg (hless.mp hsign)]
    · rw [abs_of_nonneg (not_lt.mp (mt hless.mpr hsign))]
  | float x =>
    cases x with
    | finite q =>
      have hq : q = (amount (.float (.finite q)) : ℚ) := LuaNumber.finite.inj hvalue
      change LuaNumber.finite |q| = _
      rw [Int.cast_abs, ← hq]
    | infinite negative => cases hvalue
    | nan => cases hvalue

/-- A sign that is not zero is the sign of all the fields that are not zero. -/
theorem assertConsistentSigns_eq_ok {sign : Int} {l : List Number}
    (hsigns : ∀ n ∈ l, fieldSign n = -1 ∨ fieldSign n = 0 ∨ fieldSign n = 1)
    (hsign : sign = -1 ∨ sign = 0 ∨ sign = 1) :
    assertConsistentSigns sign l = .ok () ↔
      ((sign ≠ 1 ∧ ∀ n ∈ l, fieldSign n ≤ 0) ∨ (sign ≠ -1 ∧ ∀ n ∈ l, 0 ≤ fieldSign n)) := by
  induction l generalizing sign with
  | nil =>
    refine iff_of_true rfl ?_
    rcases hsign with rfl | rfl | rfl
    · exact .inl ⟨by decide, by simp⟩
    · exact .inl ⟨by decide, by simp⟩
    · exact .inr ⟨by decide, by simp⟩
  | cons n l ih =>
    obtain ⟨hfirst, hrest⟩ := List.forall_mem_cons.mp hsigns
    simp only [assertConsistentSigns, List.forall_mem_cons]
    split_ifs with hzero hstart hdiffers
    · rw [ih hrest hsign, hzero]
      simp
    · rw [ih hrest hfirst, hstart]
      rcases hfirst with h | h | h
      · simp [h]
      · exact absurd h hzero
      · simp [h]
    · refine iff_of_false (fun h => by cases h) ?_
      rintro (⟨hone, hle, -⟩ | ⟨hone, hle, -⟩) <;> omega
    · have hsame : sign = fieldSign n := by omega
      rw [ih hrest hsign, hsame]
      rcases hfirst with h | h | h
      · simp [h]
      · exact absurd h hzero
      · simp [h]

end Amounts

section OneSign
variable (p : Period) (key : PeriodKey)

theorem amount_bounds : -maxSafePeriodField ≤ amount (p.field key) ∧
    amount (p.field key) ≤ maxSafePeriodField := (finiteInteger_iff.mp (p.finite key)).2

theorem fieldSign_field : fieldSign (p.field key) = (amount (p.field key)).sign :=
  fieldSign_eq (p.finite key)

theorem signs_iff {field : PeriodKey → Number} (h : ∀ key, finiteInteger (field key) = true) :
    assertConsistentSigns 0 (PeriodKey.all.map field) = .ok () ↔
      (∀ key, amount (field key) ≤ 0) ∨ ∀ key, 0 ≤ amount (field key) := by
  have hsigns : ∀ n ∈ PeriodKey.all.map field,
      fieldSign n = -1 ∨ fieldSign n = 0 ∨ fieldSign n = 1 := by
    intro n hn
    obtain ⟨key, -, rfl⟩ := List.mem_map.mp hn
    rw [fieldSign_eq (h key)]
    rcases Int.lt_trichotomy (amount (field key)) 0 with hless | hzero | hmore
    · exact .inl (Int.sign_eq_neg_one_of_neg hless)
    · exact .inr (.inl (by rw [hzero]; rfl))
    · exact .inr (.inr (Int.sign_eq_one_of_pos hmore))
  have hall : ∀ P : Number → Prop, (∀ n ∈ PeriodKey.all.map field, P n) ↔ ∀ key, P (field key) := by
    intro P
    constructor
    · intro hP key
      exact hP _ (List.mem_map_of_mem (PeriodKey.mem_all key))
    · intro hP n hn
      obtain ⟨key, -, rfl⟩ := List.mem_map.mp hn
      exact hP key
  rw [assertConsistentSigns_eq_ok hsigns (.inr (.inl rfl)), hall, hall]
  simp only [fieldSign_eq (h _), Int.sign_nonpos_iff, Int.sign_nonneg_iff]
  simp

theorem one_sign : (∀ key, amount (p.field key) ≤ 0) ∨ ∀ key, 0 ≤ amount (p.field key) :=
  (signs_iff p.finite).mp p.signs

theorem isNegative_iff : p.isNegative = true ↔ ∃ key, amount (p.field key) < 0 := by
  unfold isNegative
  rw [List.any_eq_true]
  constructor
  · rintro ⟨key, -, hkey⟩
    rw [decide_eq_true_eq, fieldSign_field, Int.sign_eq_neg_one_iff_neg] at hkey
    exact ⟨key, hkey⟩
  · rintro ⟨key, hkey⟩
    refine ⟨key, PeriodKey.mem_all key, ?_⟩
    rw [decide_eq_true_eq, fieldSign_field, Int.sign_eq_neg_one_iff_neg]
    exact hkey

/-- The sign of a period gives its fields back from their magnitudes. -/
theorem sign_mul_abs : (if p.isNegative then -1 else 1) * |amount (p.field key)| =
    amount (p.field key) := by
  split_ifs with hnegative
  · obtain ⟨other, hother⟩ := p.isNegative_iff.mp hnegative
    rcases p.one_sign with hle | hge
    · rw [abs_of_nonpos (hle key)]
      omega
    · have := hge other
      omega
  · have hkey : ¬ amount (p.field key) < 0 := fun hless => hnegative (p.isNegative_iff.mpr ⟨key, hless⟩)
    rw [abs_of_nonneg (by omega)]
    omega

end OneSign

section Rebuilding
variable {field : PeriodKey → Number}

theorem fieldsOf_self (field : PeriodKey → Number) :
    fieldsOf (field .years) (field .months) (field .weeks) (field .days) = field := by
  funext key
  cases key <;> rfl

theorem consistentPeriod_eq_ok {years months weeks days : { n : Number // finiteInteger n = true }}
    (p : Period) (h : p.field = fieldsOf years months weeks days) :
    consistentPeriod years months weeks days = .ok p := by
  unfold consistentPeriod
  split
  · refine congrArg Except.ok ?_
    cases p
    simp only [Period.mk.injEq]
    exact h.symm
  · rename_i e he
    have hsigns := p.signs
    rw [h, he] at hsigns
    cases hsigns

theorem requireField_of_lookup {parts : Parts} {key : PeriodKey}
    (h : parts.lookup key.name = some (.number (field key)))
    (hfinite : finiteInteger (field key) = true) :
    requireField parts key = .ok ⟨field key, hfinite⟩ := by
  unfold requireField fieldOrZero
  rw [h]
  exact dif_pos hfinite

/-- The fields of a period are accepted again. -/
theorem fromParts_partsOf (p : Period) : fromParts (partsOf p.field) = .ok p := by
  have hlookup : ∀ key : PeriodKey, (partsOf p.field).lookup key.name =
      some (.number (p.field key)) := fun key => by cases key <;> rfl
  have hrequire : ∀ key, requireField (partsOf p.field) key = .ok ⟨p.field key, p.finite key⟩ :=
    fun key => requireField_of_lookup (hlookup key) (p.finite key)
  unfold fromParts
  refine bind_eq_ok.mpr ⟨(), rfl, bind_eq_ok.mpr ⟨(), rfl, ?_⟩⟩
  simp only [hrequire, bind, Except.bind]
  exact consistentPeriod_eq_ok p (fieldsOf_self p.field).symm

theorem fromParts_parts (p : Period) : fromParts p.parts = .ok p := by
  have hlookup : ∀ key : PeriodKey, p.parts.lookup key.name =
      some (.number (p.field key)) := fun key => by cases key <;> rfl
  have hrequire : ∀ key, requireField p.parts key = .ok ⟨p.field key, p.finite key⟩ :=
    fun key => requireField_of_lookup (hlookup key) (p.finite key)
  unfold fromParts
  refine bind_eq_ok.mpr ⟨(), rfl, bind_eq_ok.mpr ⟨(), rfl, ?_⟩⟩
  simp only [hrequire, bind, Except.bind]
  exact consistentPeriod_eq_ok p (fieldsOf_self p.field).symm

end Rebuilding

section Opposites
variable (p q : Period)

/-- The period with every field negated. -/
def opposite : Period where
  field key := negateNumber (p.field key)
  finite key := finiteInteger_negateNumber (p.finite key)
  signs := by
    refine (signs_iff fun key => finiteInteger_negateNumber (p.finite key)).mpr ?_
    simp only [amount_negateNumber (p.finite _)]
    rcases p.one_sign with hle | hge
    · exact .inr fun key => by have := hle key; omega
    · exact .inl fun key => by have := hge key; omega

theorem negate_parts : negate p.parts = .ok p.opposite := by
  unfold negate
  rw [fromParts_parts]
  exact fromParts_partsOf p.opposite

theorem amount_opposite (key : PeriodKey) :
    amount (p.opposite.field key) = -amount (p.field key) := amount_negateNumber (p.finite key)

/-- Fields are equal as numbers, whether integers or doubles. -/
def Same : Prop := ∀ key, (p.field key).value = (q.field key).value

variable {p q}

theorem same_iff : p.Same q ↔ ∀ key, amount (p.field key) = amount (q.field key) := by
  constructor
  · intro h key
    rw [amount, h key, amount]
  · intro h key
    rw [(finiteInteger_iff.mp (p.finite key)).1, h key, (finiteInteger_iff.mp (q.finite key)).1]

theorem Same.symm (h : p.Same q) : q.Same p := fun key => (h key).symm

theorem Same.trans {r : Period} (h : p.Same q) (h' : q.Same r) : p.Same r :=
  fun key => (h key).trans (h' key)

theorem opposite_opposite (p : Period) : p.opposite.opposite.Same p := by
  refine same_iff.mpr fun key => ?_
  rw [amount_opposite, amount_opposite, neg_neg]

end Opposites

section Reading

/-- The fields of a text that are not zero stand as integers. -/
def WholeNumbers (field : PeriodKey → Number) : Prop :=
  ∀ key, amount (field key) ≠ 0 → IsInteger (field key)

variable {field : PeriodKey → Number} {key : PeriodKey} {rest : Text}

/-- The magnitude of a field as a text gives it. -/
def magnitude (field : PeriodKey → Number) (key : PeriodKey) : Number :=
  if (field key).isZero then .integer 0 else absNumber (field key)

theorem takeWhile_digits {text : Text} (h : isDigits text = true) {c : Char} (hc : c.isDigit = false)
    (rest : Text) : (text ++ c :: rest).takeWhile Char.isDigit = text := by
  rw [List.takeWhile_append_of_pos fun d hd => isDigit_of_isDigits h hd,
    List.takeWhile_cons_of_neg (by simp [hc]), List.append_nil]

theorem suffix_not_digit (key : PeriodKey) : key.suffix.isDigit = false := by
  cases key <;> rfl

/-- What is written for an integer, and that it is read as its magnitude. -/
theorem fieldText_integer (hfinite : finiteInteger (field key) = true)
    (hzero : (field key).isZero = false) (hinteger : IsInteger (field key)) :
    ∃ text, isDigits text = true ∧ fieldText field key = text ++ [key.suffix] ∧
      tonumber text = absNumber (field key) := by
  have hvalue := absNumber_value hfinite
  obtain ⟨value, hfield⟩ := hinteger
  rw [hfield] at hvalue
  change LuaNumber.finite ((if value < 0 then -value else value : Int64).toInt : ℚ) = _ at hvalue
  have hnonneg : (0 : Int) ≤ (if value < 0 then -value else value : Int64).toInt := by
    have := LuaNumber.finite.inj hvalue
    norm_cast at this
    rw [this]
    exact abs_nonneg _
  refine ⟨_, isDigits_integerText hnonneg, ?_, ?_⟩
  · rw [fieldText, hzero, hfield]
    rfl
  · rw [tonumber_integerText, hfield]
    rfl

theorem consumeComponent_digits {text : Text} (h : isDigits text = true) {suffix c : Char}
    (hc : c.isDigit = false) :
    consumeComponent suffix (text ++ c :: rest) =
      if c = suffix then (tonumber text, rest, true) else (.integer 0, text ++ c :: rest, false) := by
  have hsome : text ≠ [] := by
    rintro rfl
    cases h
  unfold consumeComponent
  dsimp only
  rw [takeWhile_digits h hc, List.drop_left, List.head?_cons, List.tail_cons]
  by_cases hsame : c = suffix
  · rw [if_pos ⟨hsome, by rw [hsame]⟩, if_pos hsame]
  · rw [if_neg fun hboth => hsame (Option.some.inj hboth.2), if_neg hsame]

/-- A field that is written is read, and what follows it is left. -/
theorem consumeComponent_field (hfinite : finiteInteger (field key) = true)
    (hzero : (field key).isZero = false) (hinteger : IsInteger (field key)) :
    consumeComponent key.suffix (fieldText field key ++ rest) =
      (magnitude field key, rest, true) := by
  obtain ⟨text, hdigits, htext, hread⟩ := fieldText_integer hfinite hzero hinteger
  rw [htext, List.append_assoc, List.singleton_append,
    consumeComponent_digits hdigits (suffix_not_digit key), if_pos rfl, hread, magnitude, hzero]
  rfl

/-- A field that is not written is not read from the fields after it. -/
theorem consumeComponent_skip (hfinite : ∀ key, finiteInteger (field key) = true)
    (hwhole : WholeNumbers field) {keys : List PeriodKey} (hkey : key ∉ keys) :
    consumeComponent key.suffix (keys.flatMap (fieldText field)) =
      (.integer 0, keys.flatMap (fieldText field), false) := by
  induction keys with
  | nil => rfl
  | cons other keys ih =>
    obtain ⟨hother, hrest⟩ := not_or.mp (mt List.mem_cons.mpr hkey)
    rw [List.flatMap_cons]
    cases hzero : (field other).isZero with
    | true =>
      have hnone : fieldText field other = [] := by rw [fieldText, hzero]; rfl
      rw [hnone]
      exact ih hrest
    | false =>
      have hamount : amount (field other) ≠ 0 := fun h => by
        rw [(isZero_iff (hfinite other)).mpr h] at hzero
        cases hzero
      obtain ⟨text, hdigits, htext, -⟩ :=
        fieldText_integer (hfinite other) hzero (hwhole other hamount)
      rw [htext, List.append_assoc, List.singleton_append,
        consumeComponent_digits hdigits (suffix_not_digit other),
        if_neg fun hsame => hother (PeriodKey.suffix_injective hsame.symm)]

/-- One component of the text of a period. -/
theorem consumeComponent_next (hfinite : ∀ key, finiteInteger (field key) = true)
    (hwhole : WholeNumbers field) {keys : List PeriodKey} (hkey : key ∉ keys) :
    consumeComponent key.suffix ((key :: keys).flatMap (fieldText field)) =
      (magnitude field key, keys.flatMap (fieldText field), !(field key).isZero) := by
  rw [List.flatMap_cons]
  cases hzero : (field key).isZero with
  | true =>
    have hnone : fieldText field key = [] := by rw [fieldText, hzero]; rfl
    rw [hnone, List.nil_append, consumeComponent_skip hfinite hwhole hkey, magnitude, hzero]
    rfl
  | false =>
    have hamount : amount (field key) ≠ 0 := fun h => by
      rw [(isZero_iff (hfinite key)).mpr h] at hzero
      cases hzero
    exact consumeComponent_field (hfinite key) hzero (hwhole key hamount)

theorem amount_magnitude (hfinite : finiteInteger (field key) = true) :
    amount (magnitude field key) = |amount (field key)| := by
  unfold magnitude
  split_ifs with hzero
  · rw [(isZero_iff hfinite).mp hzero]
    rfl
  · exact amount_of_value (absNumber_value hfinite)

theorem isInteger_magnitude (hfinite : finiteInteger (field key) = true)
    (hwhole : WholeNumbers field) : IsInteger (magnitude field key) := by
  unfold magnitude
  split_ifs with hzero
  · exact ⟨0, rfl⟩
  · obtain ⟨value, hvalue⟩ := hwhole key (mt (isZero_iff hfinite).mpr hzero)
    exact ⟨_, by rw [hvalue]; rfl⟩

/-- A magnitude takes the sign of its text. -/
theorem signedNumber_value {negative : Bool} {n : Number} (hinteger : IsInteger n)
    (hbound : |amount n| ≤ maxSafePeriodField) :
    (signedNumber negative n).value =
      .finite (((if negative then -1 else 1) * amount n : Int) : ℚ) := by
  obtain ⟨value, rfl⟩ := hinteger
  rw [amount_integer] at hbound ⊢
  unfold maxSafePeriodField at hbound
  have hrange := abs_le.mp hbound
  have hproduct : ((if negative then -1 else 1 : Int64) * value).toInt =
      (if negative then -1 else 1) * value.toInt := by
    cases negative with
    | true =>
      have hone : (-1 : Int64).toInt = -1 := by decide
      simp only [if_true, Int64.toInt_mul, hone]
      exact Int.bmod_eq_of_le (by omega) (by omega)
    | false =>
      have hone : (1 : Int64).toInt = 1 := by decide
      simp only [Bool.false_eq_true, if_false, Int64.toInt_mul, hone]
      exact Int.bmod_eq_of_le (by omega) (by omega)
  rw [signedNumber, value_of_integer, hproduct]

theorem field_chars (hfinite : ∀ key, finiteInteger (field key) = true)
    (hwhole : WholeNumbers field) {c : Char} (hc : c ∈ PeriodKey.all.flatMap (fieldText field)) :
    c.isDigit = true ∨ ∃ key : PeriodKey, c = key.suffix := by
  obtain ⟨key, -, hkey⟩ := List.mem_flatMap.mp hc
  cases hzero : (field key).isZero with
  | true =>
    rw [fieldText, hzero] at hkey
    cases hkey
  | false =>
    have hamount : amount (field key) ≠ 0 := fun h => by
      rw [(isZero_iff (hfinite key)).mpr h] at hzero
      cases hzero
    obtain ⟨text, hdigits, htext, -⟩ :=
      fieldText_integer (hfinite key) hzero (hwhole key hamount)
    rw [htext] at hkey
    rcases List.mem_append.mp hkey with hdigit | hsuffix
    · exact .inl (isDigit_of_isDigits hdigits hdigit)
    · exact .inr ⟨key, List.mem_singleton.mp hsuffix⟩

/-- The sign of a text and the magnitude of a field. -/
def readAmount (p : Period) (negative : Bool) (key : PeriodKey) : Int :=
  (if negative then -1 else 1) * |amount (p.field key)|

variable {p : Period} (negative : Bool)

theorem readAmount_bounds : -maxSafePeriodField ≤ readAmount p negative key ∧
    readAmount p negative key ≤ maxSafePeriodField := by
  have hrange := abs_le.mp (abs_le.mpr (p.amount_bounds key))
  have hmagnitude : |amount (p.field key)| ≤ maxSafePeriodField := abs_le.mpr hrange
  have hnonneg := abs_nonneg (amount (p.field key))
  unfold readAmount
  split_ifs <;> omega

theorem readField_value (hwhole : WholeNumbers p.field) :
    (signedNumber negative (magnitude p.field key)).value =
      .finite (readAmount p negative key : ℚ) := by
  have hmagnitude := amount_magnitude (p.finite key)
  have hsmall : |amount (magnitude p.field key)| ≤ maxSafePeriodField := by
    rw [hmagnitude, abs_abs]
    exact abs_le.mpr (p.amount_bounds key)
  rw [signedNumber_value (isInteger_magnitude (p.finite key) hwhole) hsmall, hmagnitude]
  rfl

/-- The period that a text gives. -/
def readPeriod (hwhole : WholeNumbers p.field) : Period :=
  have hfinite : ∀ key, finiteInteger (signedNumber negative (magnitude p.field key)) = true :=
    fun key => by
      refine finiteInteger_iff.mpr ?_
      rw [amount_of_value (readField_value negative hwhole)]
      exact ⟨readField_value negative hwhole, readAmount_bounds negative⟩
  { field := fun key => signedNumber negative (magnitude p.field key)
    finite := hfinite
    signs := by
      refine (signs_iff hfinite).mpr ?_
      simp only [amount_of_value (readField_value negative hwhole), readAmount]
      cases negative with
      | true => exact .inl fun key => by have := abs_nonneg (amount (p.field key)); simp
      | false => exact .inr fun key => by have := abs_nonneg (amount (p.field key)); simp }

theorem amount_readPeriod (hwhole : WholeNumbers p.field) (key : PeriodKey) :
    amount ((readPeriod negative hwhole).field key) = readAmount p negative key :=
  amount_of_value (readField_value negative hwhole)

/-- The fields of a text, `0D` when it has none. -/
def body (p : Period) : Text :=
  let fields := PeriodKey.all.flatMap (fieldText p.field)
  if fields = [] then ['0', 'D'] else fields

/-- `P`, the fields and the sign before them -/
def written (p : Period) (negative : Bool) : Text :=
  (if negative then ['-'] else []) ++ 'P' :: body p

theorem fields_eq_nil : PeriodKey.all.flatMap (fieldText p.field) = [] ↔
    ∀ key, amount (p.field key) = 0 := by
  rw [List.flatMap_eq_nil_iff]
  constructor
  · intro h key
    by_contra hamount
    have hkey := h key (PeriodKey.mem_all key)
    rw [fieldText, if_neg (mt (isZero_iff (p.finite key)).mp hamount)] at hkey
    simp at hkey
  · intro h key _
    exact if_pos ((isZero_iff (p.finite key)).mpr (h key))

theorem body_chars (hwhole : WholeNumbers p.field) {c : Char} (hc : c ∈ body p) :
    c.isDigit = true ∨ ∃ key : PeriodKey, c = key.suffix := by
  unfold body at hc
  dsimp only at hc
  split_ifs at hc
  · rcases List.mem_pair.mp hc with rfl | rfl
    · exact .inl rfl
    · exact .inr ⟨.days, rfl⟩
  · exact field_chars p.finite hwhole hc

/-- The components of a text are the magnitudes of its fields, and one of them at least is there. -/
theorem consume_body (hwhole : WholeNumbers p.field) :
    ∃ afterYears afterMonths afterWeeks hasYears hasMonths hasWeeks hasDays,
      consumeComponent PeriodKey.years.suffix (body p) =
        (magnitude p.field .years, afterYears, hasYears) ∧
      consumeComponent PeriodKey.months.suffix afterYears =
        (magnitude p.field .months, afterMonths, hasMonths) ∧
      consumeComponent PeriodKey.weeks.suffix afterMonths =
        (magnitude p.field .weeks, afterWeeks, hasWeeks) ∧
      consumeComponent PeriodKey.days.suffix afterWeeks =
        (magnitude p.field .days, [], hasDays) ∧
      (hasYears || hasMonths || hasWeeks || hasDays) = true := by
  by_cases hnone : PeriodKey.all.flatMap (fieldText p.field) = []
  · have hzero : ∀ key, magnitude p.field key = .integer 0 := fun key =>
      if_pos ((isZero_iff (p.finite key)).mpr (fields_eq_nil.mp hnone key))
    have hbody : body p = ['0', 'D'] := if_pos hnone
    have hread := fun suffix => @consumeComponent_digits [] ['0'] rfl suffix 'D' rfl
    simp only [List.singleton_append] at hread
    simp only [hbody, hzero]
    refine ⟨_, _, _, _, _, _, _, (hread _).trans (if_neg (by decide)),
      (hread _).trans (if_neg (by decide)), (hread _).trans (if_neg (by decide)),
      (hread _).trans (if_pos rfl), rfl⟩
  · have hbody : body p = PeriodKey.all.flatMap (fieldText p.field) := if_neg hnone
    rw [hbody]
    refine ⟨_, _, _, _, _, _, _, consumeComponent_next p.finite hwhole (by decide),
      consumeComponent_next p.finite hwhole (by decide),
      consumeComponent_next p.finite hwhole (by decide),
      consumeComponent_next p.finite hwhole (by decide), ?_⟩
    by_contra hall
    simp only [Bool.or_eq_true, Bool.not_eq_true', not_or, Bool.not_eq_false] at hall
    obtain ⟨⟨⟨hyears, hmonths⟩, hweeks⟩, hdays⟩ := hall
    refine hnone (fields_eq_nil.mpr fun key => (isZero_iff (p.finite key)).mp ?_)
    cases key
    · exact hyears
    · exact hmonths
    · exact hweeks
    · exact hdays

/-- What is written with integers is read. -/
theorem parse_written (hwhole : WholeNumbers p.field) :
    parse (written p negative) = .ok (readPeriod negative hwhole) := by
  have hsign : ((written p negative).head? == some '-') = negative := by
    cases negative <;> rfl
  have hunsigned : (if negative then (written p negative).tail else written p negative) =
      'P' :: body p := by
    cases negative <;> rfl
  have hclean : ∀ c : Char, c.isDigit = false → (∀ key : PeriodKey, c ≠ key.suffix) → c ≠ 'P' →
      c ∉ 'P' :: body p := by
    intro c hdigit hsuffix hp hc
    rcases List.mem_cons.mp hc with hfirst | hbody
    · exact hp hfirst
    · rcases body_chars hwhole hbody with h | ⟨key, h⟩
      · rw [hdigit] at h
        cases h
      · exact hsuffix key h
  have hfield : (fun key => signedNumber negative (fieldsOf (magnitude p.field .years)
      (magnitude p.field .months) (magnitude p.field .weeks) (magnitude p.field .days) key)) =
      (readPeriod negative hwhole).field := by
    rw [fieldsOf_self]
    rfl
  obtain ⟨afterYears, afterMonths, afterWeeks, hasYears, hasMonths, hasWeeks, hasDays, hyears,
    hmonths, hweeks, hdays, hsome⟩ := consume_body hwhole
  unfold parse
  simp only [hsign, hunsigned, List.tail_cons, hyears, hmonths, hweeks, hdays, hfield,
    fromParts_partsOf]
  refine bind_eq_ok.mpr ⟨(), ensure_eq_ok.mpr ⟨by simp, by simp, ?_, ?_, ?_⟩,
    bind_eq_ok.mpr ⟨(), ensure_eq_ok.mpr rfl,
      bind_eq_ok.mpr ⟨(), ensure_eq_ok.mpr ⟨trivial, hsome⟩, rfl⟩⟩⟩
  · exact hclean '+' rfl (fun key => by cases key <;> decide) (by decide)
  · exact hclean '.' rfl (fun key => by cases key <;> decide) (by decide)
  · exact hclean 'T' rfl (fun key => by cases key <;> decide) (by decide)

end Reading

section Formatting
variable {p q : Period}

theorem format_parts (p : Period) : format p.parts = .ok (written p p.isNegative) := by
  unfold format
  rw [fromParts_parts]
  change Except.ok (if _ then _ else _) = Except.ok _
  split_ifs with hnone hnegative
  · have hpositive : p.isNegative = false := by
      rw [Bool.eq_false_iff]
      intro hnegative
      obtain ⟨key, hkey⟩ := p.isNegative_iff.mp hnegative
      have := fields_eq_nil.mp hnone key
      omega
    rw [hpositive, written, body, if_pos hnone]
    rfl
  · rw [hnegative, written, body, if_neg hnone]
    rfl
  · rw [(Bool.not_eq_true _).mp hnegative, written, body, if_neg hnone]
    rfl

theorem readPeriod_same (hwhole : WholeNumbers p.field) :
    (readPeriod p.isNegative hwhole).Same p := by
  refine same_iff.mpr fun key => ?_
  rw [amount_readPeriod, readAmount, p.sign_mul_abs]

theorem plus_mem_scientificText (n : Nat) : '+' ∈ scientificText n := by
  unfold scientificText
  dsimp only
  generalize (if roundDiv n (10 ^ ((digits n).length - 1 - 13)) = 10 ^ 14 then _ else _) = parts
  obtain ⟨mantissa, exponent⟩ := parts
  have hexponent : '+' ∈ exponentText exponent := List.mem_cons_of_mem _ List.mem_cons_self
  dsimp only
  split
  · exact hexponent
  · exact List.mem_cons_of_mem _ (List.mem_append_right _ hexponent)

/-- A double is written with a point or a plus sign. -/
theorem fieldText_float {field : PeriodKey → Number} {key : PeriodKey} {q : ℚ}
    (hfield : field key = .float (.finite q)) (hzero : (field key).isZero = false) :
    '.' ∈ fieldText field key ∨ '+' ∈ fieldText field key := by
  have htext : fieldText field key = integralFloatText ⌊|q|⌋ ++ [key.suffix] := by
    rw [fieldText, hzero, hfield]
    rfl
  rw [htext, integralFloatText]
  split_ifs with _ hsmall hsmall
  · exact .inl (by simp)
  · exact .inr (by simp [plus_mem_scientificText])
  · exact .inl (by simp)
  · exact .inr (by simp [plus_mem_scientificText])

theorem mem_written_of_mem_body {negative : Bool} {c : Char} (h : c ∈ body p) :
    c ∈ if (written p negative).head? == some '-' then (written p negative).tail
      else written p negative := by
  cases negative <;> exact List.mem_cons_of_mem _ h

/-- A text that is read has its fields written as integers. -/
theorem wholeNumbers_of_parse {negative : Bool} (h : parse (written p negative) = .ok q) :
    WholeNumbers p.field := by
  intro key hamount
  have hfinite := p.finite key
  have hzero : (p.field key).isZero = false := by
    rw [Bool.eq_false_iff]
    exact mt (isZero_iff hfinite).mp hamount
  cases hfield : p.field key with
  | integer value => exact ⟨value, rfl⟩
  | float x =>
    exfalso
    have hvalue := (finiteInteger_iff.mp hfinite).1
    rw [hfield] at hvalue
    cases x with
    | infinite negative => cases hvalue
    | nan => cases hvalue
    | finite value =>
      unfold parse at h
      obtain ⟨_, hclean, -⟩ := bind_eq_ok.mp h
      obtain ⟨-, -, hplus, hpoint, -⟩ := ensure_eq_ok.mp hclean
      have hbody : ∀ c ∈ fieldText p.field key, c ∈ body p := by
        intro c hc
        have hmem := List.mem_flatMap.mpr ⟨key, PeriodKey.mem_all key, hc⟩
        unfold body
        dsimp only
        split_ifs with hnone
        · rw [hnone] at hmem
          cases hmem
        · exact hmem
      rcases fieldText_float hfield hzero with hc | hc
      · exact hpoint (mem_written_of_mem_body (hbody _ hc))
      · exact hplus (mem_written_of_mem_body (hbody _ hc))

end Formatting

section Negating
variable {p q : Period} {field : PeriodKey → Number}

theorem requireField_partsOf {n : { n : Number // finiteInteger n = true }} {key : PeriodKey}
    (h : requireField (partsOf field) key = .ok n) : field key = n := by
  have hlookup : fieldOrZero (partsOf field) key = .number (field key) := by
    cases key <;> rfl
  unfold requireField at h
  rw [hlookup] at h
  dsimp only at h
  split_ifs at h
  exact congrArg Subtype.val (Except.ok.inj h)

theorem field_of_fromParts (h : fromParts (partsOf field) = .ok p) : p.field = field := by
  unfold fromParts at h
  obtain ⟨_, -, h⟩ := bind_eq_ok.mp h
  obtain ⟨_, -, h⟩ := bind_eq_ok.mp h
  obtain ⟨years, hyears, h⟩ := bind_eq_ok.mp h
  obtain ⟨months, hmonths, h⟩ := bind_eq_ok.mp h
  obtain ⟨weeks, hweeks, h⟩ := bind_eq_ok.mp h
  obtain ⟨days, hdays, h⟩ := bind_eq_ok.mp h
  have hfields : fieldsOf years months weeks days = field := by
    rw [← fieldsOf_self field, requireField_partsOf hyears, requireField_partsOf hmonths,
      requireField_partsOf hweeks, requireField_partsOf hdays]
  unfold consistentPeriod at h
  split at h
  · rw [← Except.ok.inj h]
    exact hfields
  · cases h

theorem signedNumber_true (n : Number) :
    signedNumber true n = negateNumber (signedNumber false n) := by
  cases n with
  | float x => rfl
  | integer value =>
    change Number.integer (-1 * value) = Number.integer (-(1 * value))
    rw [Int64.neg_mul]

/-- A text without a sign and the text with one before it are read as opposite periods. -/
theorem parse_cons_minus {text : Text} (hsign : text.head? ≠ some '-')
    (h : parse text = .ok p) : parse ('-' :: text) = .ok p.opposite := by
  have hfalse : (text.head? == some '-') = false := by simpa using hsign
  unfold parse at h ⊢
  simp only [hfalse, Bool.false_eq_true, if_false] at h
  simp only [List.head?_cons, beq_self_eq_true, if_true, List.tail_cons]
  obtain ⟨_, hclean, h⟩ := bind_eq_ok.mp h
  obtain ⟨_, hstart, h⟩ := bind_eq_ok.mp h
  obtain ⟨_, hcomponents, h⟩ := bind_eq_ok.mp h
  refine bind_eq_ok.mpr ⟨(), hclean, bind_eq_ok.mpr ⟨(), hstart,
    bind_eq_ok.mpr ⟨(), hcomponents, ?_⟩⟩⟩
  have hfield := field_of_fromParts h
  simp only [signedNumber_true]
  refine (congrArg (fun field => fromParts (partsOf field)) ?_).trans (fromParts_partsOf p.opposite)
  funext key
  exact congrArg negateNumber (congrFun hfield key).symm

theorem absNumber_negateNumber {n : Number} (h : finiteInteger n = true) :
    absNumber (negateNumber n) = absNumber n := by
  obtain ⟨-, hlow, hhigh⟩ := finiteInteger_iff.mp h
  unfold maxSafePeriodField at hlow hhigh
  cases n with
  | float x =>
    cases x with
    | finite q => exact congrArg (fun q => Number.float (.finite q)) (abs_neg q)
    | infinite negative => rfl
    | nan => rfl
  | integer value =>
    rw [amount_integer] at hlow hhigh
    have hneg : (-value).toInt = -value.toInt := by
      rw [Int64.toInt_neg, Int.bmod_eq_of_le (by omega) (by omega)]
    have hless : value < 0 ↔ value.toInt < 0 := Int64.lt_iff_toInt_lt
    have hless' : -value < 0 ↔ -value.toInt < 0 := by
      rw [← hneg]
      exact Int64.lt_iff_toInt_lt
    refine congrArg Number.integer ?_
    rcases Int.lt_trichotomy value.toInt 0 with hsign | hsign | hsign
    · rw [if_neg (mt hless'.mp (by omega)), if_pos (hless.mpr hsign)]
    · have hzero : value = 0 := Int64.toInt_inj.mp hsign
      rw [hzero]
      rfl
    · rw [if_pos (hless'.mpr (by omega)), if_neg (mt hless.mp (by omega)), Int64.neg_neg]

theorem body_opposite (p : Period) : body p.opposite = body p := by
  have hfield : ∀ key, fieldText p.opposite.field key = fieldText p.field key := by
    intro key
    have hzero : (p.opposite.field key).isZero = (p.field key).isZero := by
      rw [Bool.eq_iff_iff, isZero_iff (p.opposite.finite key), isZero_iff (p.finite key),
        amount_opposite, neg_eq_zero]
    unfold fieldText
    rw [hzero]
    change (if _ then _ else numberText (absNumber (negateNumber (p.field key))) ++ _) = _
    rw [absNumber_negateNumber (p.finite key)]
  unfold body
  rw [funext hfield]

def changeSign (text : Text) : Text :=
  if text.head? = some '-' then text.tail else '-' :: text

def isZero (p : Period) : Bool := PeriodKey.all.all fun key => (p.field key).isZero

theorem isZero_eq_true : p.isZero = true ↔ ∀ key, amount (p.field key) = 0 := by
  unfold isZero
  rw [List.all_eq_true]
  constructor
  · intro h key
    exact (Period.isZero_iff (p.finite key)).mp (h key (PeriodKey.mem_all key))
  · intro h key _
    exact (Period.isZero_iff (p.finite key)).mpr (h key)

theorem isNegative_opposite (h : p.isZero = false) : p.opposite.isNegative = !p.isNegative := by
  have hsome : ∃ key, amount (p.field key) ≠ 0 := by
    by_contra hnone
    rw [isZero_eq_true.mpr fun key => by_contra fun hkey => hnone ⟨key, hkey⟩] at h
    cases h
  obtain ⟨key, hkey⟩ := hsome
  have hopposite := p.opposite.isNegative_iff
  simp only [amount_opposite] at hopposite
  rw [Bool.eq_iff_iff, hopposite, Bool.not_eq_true', ← Bool.not_eq_true, p.isNegative_iff]
  rcases p.one_sign with hle | hge
  · refine iff_of_false ?_ fun hnone => hnone ⟨key, by have := hle key; omega⟩
    rintro ⟨other, hother⟩
    have := hle other
    omega
  · refine iff_of_true ⟨key, by have := hge key; omega⟩ ?_
    rintro ⟨other, hother⟩
    have := hge other
    omega

/-- A period is negated by changing the sign of its text, the zero period having none. -/
theorem format_opposite (p : Period) :
    format p.opposite.parts = .ok (if p.isZero then written p p.isNegative
      else changeSign (written p p.isNegative)) := by
  rw [format_parts]
  refine congrArg Except.ok ?_
  cases hzero : p.isZero with
  | true =>
    have hamounts := isZero_eq_true.mp hzero
    have hnone : ∀ q : Period, (∀ key, amount (q.field key) = 0) → q.isNegative = false := by
      intro q hq
      rw [Bool.eq_false_iff]
      intro hnegative
      obtain ⟨key, hkey⟩ := q.isNegative_iff.mp hnegative
      have := hq key
      omega
    rw [hnone p hamounts, hnone p.opposite fun key => by rw [amount_opposite, hamounts key, neg_zero],
      written, written, body_opposite]
    rfl
  | false =>
    rw [isNegative_opposite hzero, written, written, body_opposite]
    cases p.isNegative <;> rfl

end Negating

section Claims

/-- What the text of a period gives back, and how negation shows in it. -/
structure TextRoundTrip (p : Period) : Prop where
  read : ∃ text q, format p.parts = .ok text ∧ parse text = .ok q ∧ q.Same p
  injective : ∀ q : Period, format q.parts = format p.parts → q.Same p
  involution : ∃ q r, negate p.parts = .ok q ∧ negate q.parts = .ok r ∧ r.Same p
  negated : ∃ q text, negate p.parts = .ok q ∧ format p.parts = .ok text ∧
    format q.parts = .ok (if p.isZero then text else changeSign text)
  readNegated : ∃ q text r, negate p.parts = .ok q ∧ format q.parts = .ok text ∧
    parse text = .ok r ∧ r.Same q

variable {p q : Period}

theorem wholeNumbers_opposite (h : WholeNumbers p.field) : WholeNumbers p.opposite.field := by
  intro key hamount
  rw [amount_opposite] at hamount
  obtain ⟨value, hvalue⟩ := h key (by omega)
  refine ⟨-value, ?_⟩
  change negateNumber (p.field key) = _
  rw [hvalue]
  rfl

theorem parse_format (h : WholeNumbers p.field) :
    ∃ text q, format p.parts = .ok text ∧ parse text = .ok q ∧ q.Same p :=
  ⟨_, _, format_parts p, parse_written p.isNegative h, readPeriod_same h⟩

/-- A period comes back from its text exactly when none of its fields but a zero is a double; a text
with a minus sign in front is read as the opposite of what it is without. -/
theorem period_text_round_trip (p : Period) :
    (p.TextRoundTrip ↔ WholeNumbers p.field) ∧
    ∀ (text : Text) (unsigned : Period), text.head? ≠ some '-' → parse text = .ok unsigned →
      ∃ q r, parse ('-' :: text) = .ok q ∧ negate unsigned.parts = .ok r ∧ q.Same r := by
  refine ⟨⟨fun h => ?_, fun h => ?_⟩, fun text unsigned hsign h => ?_⟩
  · obtain ⟨text, q, htext, hread, -⟩ := h.read
    rw [format_parts] at htext
    rw [← Except.ok.inj htext] at hread
    exact wholeNumbers_of_parse hread
  · obtain ⟨text, q, htext, hread, hsame⟩ := parse_format h
    refine ⟨⟨text, q, htext, hread, hsame⟩, fun r hr => ?_, ?_, ?_, ?_⟩
    · rw [htext, format_parts] at hr
      rw [← Except.ok.inj hr] at hread
      have hwhole := wholeNumbers_of_parse hread
      rw [parse_written r.isNegative hwhole] at hread
      have hq := Except.ok.inj hread
      exact (hq ▸ readPeriod_same hwhole).symm.trans hsame
    · exact ⟨_, _, negate_parts p, negate_parts p.opposite, opposite_opposite p⟩
    · exact ⟨_, _, negate_parts p, format_parts p, format_opposite p⟩
    · obtain ⟨text, r, htext, hread, hsame⟩ := parse_format (wholeNumbers_opposite h)
      exact ⟨_, text, r, negate_parts p, htext, hread, hsame⟩
  · exact ⟨_, _, parse_cons_minus hsign h, negate_parts unsigned, fun key => rfl⟩

/-- Three years given as a double. -/
def threeYears : Period where
  field key := if key = .years then .float (.finite 3) else .integer 0
  finite key := by cases key <;> decide +kernel
  signs := by decide +kernel

theorem float_period_not_read : ¬ ∀ p : Period, p.TextRoundTrip := by
  intro h
  obtain ⟨text, q, htext, hread, -⟩ := (h threeYears).read
  have hwritten : written threeYears threeYears.isNegative = ['P', '3', '.', '0', 'Y'] := by
    decide +kernel
  rw [format_parts, hwritten] at htext
  have hrefused : parse ['P', '3', '.', '0', 'Y'] = .error "invalid temporal period text" := rfl
  rw [← Except.ok.inj htext, hrefused] at hread
  cases hread

end Claims

end Period

end Space2.Temporal
