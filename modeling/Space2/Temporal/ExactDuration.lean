import Space2.Base.LuaArithmetic
import Space2.Base.Numerals
import Space2.Temporal.PlainDateTime

/-!
# Exact durations in texts

The text of an exact duration gives hours, minutes and seconds. Two parsers read it: the grammar of
intervals, which counts nanoseconds, and that of calendar files, which counts seconds. Both compute
with the numbers of the language, whose integers wrap around, and hand the sum to a function that
takes an integer of 64 bits.
-/
namespace Space2.Temporal
open Base

/-- How a number becomes an argument of 64 bits: a double that is no such integer is refused where
numbers are checked and is converted in no specified way elsewhere. -/
structure Binding where
  checked : Bool
  convert : LuaNumber → Int64

def wholeInt64 : LuaNumber → Option Int64
  | .finite q => if q = ⌊q⌋ ∧ InRange ⌊q⌋ then some (.ofInt ⌊q⌋) else none
  | _ => none

def Binding.toInt64 (binding : Binding) : Number → Except String Int64
  | .integer n => .ok n
  | .float x =>
    match wholeInt64 x with
    | some n => .ok n
    | none => if binding.checked then .error "not an integer" else .ok (binding.convert x)

namespace ExactDuration

/-- What a parser has consumed and added up. -/
structure Progress where
  consumed : Text
  total : Number
  saw : Bool

def Progress.start : Progress := ⟨[], .integer 0, false⟩

/-- `^(%d+)` and the suffix, the digits -/
def matchComponent (suffix : Char) (text : Text) : Option Text :=
  let amount := text.takeWhile Char.isDigit
  if amount ≠ [] ∧ (text.drop amount.length).head? = some suffix then some amount else none

/-- One component at the front of what is left of the fields. -/
def consumeUnit (suffix : Char) (unit : Int64) (fields : Text) (progress : Progress) : Progress :=
  match matchComponent suffix (fields.drop progress.consumed.length) with
  | some amount =>
    ⟨progress.consumed ++ amount ++ [suffix],
      progress.total.add ((tonumber amount).mul (.integer unit)), true⟩
  | none => progress

section Grammar

/-- `^(%d+)%.?(%d*)S$`, the digits before and after the point -/
def matchSeconds (remaining : Text) : Option (Text × Text) :=
  let seconds := remaining.takeWhile Char.isDigit
  let afterSeconds := remaining.drop seconds.length
  let afterPoint := if afterSeconds.head? = some '.' then afterSeconds.tail else afterSeconds
  let fraction := afterPoint.takeWhile Char.isDigit
  if seconds ≠ [] ∧ afterPoint.drop fraction.length = ['S'] then some (seconds, fraction) else none

def fractionalSecondNanoseconds (fraction : Text) : Except String Number := do
  ensure (fraction.length ≤ 9)
    "invalid temporal exact duration: fractional seconds exceed nanosecond precision"
  pure (tonumber (fraction ++ List.replicate (9 - fraction.length) '0'))

def parseSecondField (remaining : Text) : Except String (Option (Text × Number)) :=
  match matchSeconds remaining with
  | none => .ok none
  | some (seconds, fraction) => do
    let fractionText := if fraction = [] then [] else '.' :: fraction
    let wholeNanoseconds := (tonumber seconds).mul (.integer 1000000000)
    let fractionalNanoseconds ←
      if fraction = [] then pure (.integer 0) else fractionalSecondNanoseconds fraction
    pure (some (seconds ++ fractionText ++ ['S'], wholeNanoseconds.add fractionalNanoseconds))

def consumeSeconds (fields : Text) (progress : Progress) : Except String Progress := do
  match ← parseSecondField (fields.drop progress.consumed.length) with
  | some (consumed, nanoseconds) =>
    pure ⟨progress.consumed ++ consumed, progress.total.add nanoseconds, true⟩
  | none => pure progress

/-- `parse-exact-duration` of the interval grammar, the nanoseconds of the duration -/
def parseNanoseconds (binding : Binding) (text : Text) : Except String Int := do
  let negative := text.head? == some '-'
  let body := if negative then text.tail else text
  ensure (body.take 2 = ['P', 'T']) "invalid temporal exact duration"
  let fields := body.drop 2
  ensure (fields ≠ []) "invalid temporal exact duration: missing fields"
  let hours := consumeUnit 'H' 3600000000000 fields .start
  let minutes := consumeUnit 'M' 60000000000 fields hours
  let progress ← consumeSeconds fields minutes
  ensure (progress.saw = true ∧ progress.consumed = fields) "invalid temporal exact duration"
  let n ← binding.toInt64 (if negative then progress.total.neg else progress.total)
  pure n.toInt

end Grammar

section CalendarFiles

/-- `^(%d+)S$` -/
def consumeLastSeconds (fields : Text) (progress : Progress) : Progress :=
  let remaining := fields.drop progress.consumed.length
  match matchComponent 'S' remaining with
  | some amount =>
    if remaining = amount ++ ['S'] then
      ⟨progress.consumed ++ amount ++ ['S'], progress.total.add (tonumber amount), true⟩
    else progress
  | none => progress

/-- `duration.from-seconds` -/
def fromSeconds (seconds : Int64) : Except String Int := do
  let nanoseconds ← checked (seconds.toInt * nanosPerSecond) overflow
  pure nanoseconds.1

/-- `parse-exact-duration` of calendar files, the nanoseconds of the duration -/
def parseTimed (binding : Binding) (text : Text) : Except String Int := do
  ensure (text.take 2 = ['P', 'T']) "invalid temporal ICS timed DURATION"
  let fields := text.drop 2
  ensure (fields ≠ []) "invalid temporal ICS timed DURATION"
  let hours := consumeUnit 'H' 3600 fields .start
  let minutes := consumeUnit 'M' 60 fields hours
  let progress := consumeLastSeconds fields minutes
  ensure (progress.saw = true ∧ progress.consumed = fields) "invalid temporal ICS timed DURATION"
  let seconds ← binding.toInt64 progress.total
  fromSeconds seconds

end CalendarFiles

section Texts

/-- Decimal digits, of any number. -/
structure Digits where
  text : Text
  isDigits : isDigits text = true

def Digits.value (d : Digits) : Nat := Nat.ofDigitChars 10 d.text 0

def value : Option Digits → Nat
  | none => 0
  | some d => d.value

/-- A duration as a text spells it. -/
structure DurationText where
  negative : Bool
  weeks : Option Digits
  days : Option Digits
  hours : Option Digits
  minutes : Option Digits
  seconds : Option (Digits × Option Digits)

def componentText (suffix : Char) : Option Digits → Text
  | none => []
  | some d => d.text ++ [suffix]

def secondsText : Option (Digits × Option Digits) → Text
  | none => []
  | some (seconds, none) => seconds.text ++ ['S']
  | some (seconds, some fraction) => seconds.text ++ '.' :: (fraction.text ++ ['S'])

namespace DurationText
variable (d : DurationText)

def time : Text :=
  componentText 'H' d.hours ++ (componentText 'M' d.minutes ++ secondsText d.seconds)

def text : Text :=
  (if d.negative then ['-'] else []) ++ 'P' :: (componentText 'W' d.weeks ++
    (componentText 'D' d.days ++ if d.time = [] then [] else 'T' :: d.time))

def fraction : Option Digits := d.seconds.bind Prod.snd

/-- Hours, minutes or seconds, and neither weeks nor days. -/
def TimeOnly : Prop := d.weeks = none ∧ d.days = none ∧ d.time ≠ []

/-- The whole seconds of the hours, minutes and seconds. -/
def wholeSeconds : Nat :=
  value d.hours * 3600 + value d.minutes * 60 + value (d.seconds.map Prod.fst)

def fractionOfSecond : ℚ :=
  match d.fraction with
  | none => 0
  | some fraction => fraction.value / 10 ^ fraction.text.length

/-- The exact value of a duration. -/
def nanoseconds : ℚ :=
  (if d.negative then -1 else 1) *
    (((value d.weeks * 7 + value d.days) * 86400 + d.wholeSeconds + d.fractionOfSecond) *
      1000000000)

/-- A number that an integer of 64 bits does not hold. -/
def Large : Prop :=
  2 ^ 63 ≤ value d.hours ∨ 2 ^ 63 ≤ value d.minutes ∨ 2 ^ 63 ≤ value (d.seconds.map Prod.fst)

end DurationText

end Texts

section Matching
variable {suffix c : Char} {rest : Text}

theorem Digits.ne_nil (d : Digits) : d.text ≠ [] := by
  intro hnil
  have h := d.isDigits
  rw [hnil] at h
  cases h

theorem takeWhile_text (d : Digits) (hc : c.isDigit = false) (rest : Text) :
    (d.text ++ c :: rest).takeWhile Char.isDigit = d.text := by
  rw [List.takeWhile_append_of_pos fun e he => isDigit_of_isDigits d.isDigits he,
    List.takeWhile_cons_of_neg (by simp [hc]), List.append_nil]

theorem matchComponent_digits (d : Digits) (hc : c.isDigit = false) (suffix : Char) (rest : Text) :
    matchComponent suffix (d.text ++ c :: rest) = if c = suffix then some d.text else none := by
  unfold matchComponent
  dsimp only
  rw [takeWhile_text d hc, List.drop_left, List.head?_cons]
  by_cases hsame : c = suffix
  · rw [if_pos ⟨d.ne_nil, by rw [hsame]⟩, if_pos hsame]
  · rw [if_neg fun hboth => hsame (Option.some.inj hboth.2), if_neg hsame]

/-- What is left does not begin with a component of this suffix. -/
def NotFirst (suffix : Char) (rest : Text) : Prop := matchComponent suffix rest = none

theorem notFirst_component (opt : Option Digits) (hc : c.isDigit = false) (hne : c ≠ suffix)
    (h : NotFirst suffix rest) : NotFirst suffix (componentText c opt ++ rest) := by
  cases opt with
  | none => exact h
  | some d =>
    rw [componentText, List.append_assoc, List.singleton_append, NotFirst,
      matchComponent_digits d hc, if_neg hne]

theorem notFirst_seconds (seconds : Option (Digits × Option Digits)) (hne : 'S' ≠ suffix)
    (hpoint : '.' ≠ suffix) : NotFirst suffix (secondsText seconds) := by
  match seconds with
  | none => rfl
  | some (seconds, none) =>
    rw [secondsText, NotFirst, matchComponent_digits seconds rfl, if_neg hne]
  | some (seconds, some fraction) =>
    rw [secondsText, NotFirst, matchComponent_digits seconds rfl, if_neg hpoint]

/-- A component that is there is consumed and counted. -/
def Progress.with (progress : Progress) (suffix : Char) (unit : Int64) :
    Option Digits → Progress
  | none => progress
  | some d => ⟨progress.consumed ++ d.text ++ [suffix],
      progress.total.add ((tonumber d.text).mul (.integer unit)), true⟩

theorem consumed_with (progress : Progress) (suffix : Char) (unit : Int64) (opt : Option Digits) :
    (progress.with suffix unit opt).consumed = progress.consumed ++ componentText suffix opt := by
  cases opt with
  | none => exact (List.append_nil _).symm
  | some d => exact List.append_assoc _ _ _

theorem consumeUnit_text (progress : Progress) (unit : Int64) (opt : Option Digits)
    (hsuffix : suffix.isDigit = false) (h : NotFirst suffix rest) {fields : Text}
    (hfields : fields = progress.consumed ++ (componentText suffix opt ++ rest)) :
    consumeUnit suffix unit fields progress = progress.with suffix unit opt := by
  unfold consumeUnit
  rw [hfields, List.drop_left]
  cases opt with
  | none =>
    rw [componentText, List.nil_append, h]
    rfl
  | some d =>
    rw [componentText, List.append_assoc, List.singleton_append,
      matchComponent_digits d hsuffix, if_pos rfl]
    rfl

theorem matchSeconds_text (seconds : Digits) (fraction : Option Digits) :
    matchSeconds (secondsText (some (seconds, fraction))) =
      some (seconds.text, (fraction.map Digits.text).getD []) := by
  unfold matchSeconds
  cases fraction with
  | none =>
    dsimp only [secondsText]
    rw [takeWhile_text seconds rfl, List.drop_left, List.head?_cons,
      if_neg (show ¬ some 'S' = some '.' by decide)]
    exact if_pos ⟨seconds.ne_nil, rfl⟩
  | some fraction =>
    dsimp only [secondsText]
    rw [takeWhile_text seconds rfl, List.drop_left, List.head?_cons, if_pos rfl, List.tail_cons,
      takeWhile_text fraction rfl, List.drop_left]
    exact if_pos ⟨seconds.ne_nil, rfl⟩

end Matching

section Totals
variable {k : Nat} {total part : Number} {v w : Int} {large large' : Prop}

/-- A number is the integer `v` reduced to 64 bits, or a huge double when some part of it was too
large for an integer. -/
def Holds (k : Nat) (total : Number) (v : Int) (large : Prop) : Prop :=
  (¬ large ∧ total = .integer (.ofInt v)) ∨ (large ∧ total.Huge k)

theorem Holds.mono {j : Nat} (h : Holds k total v large) (hjk : j ≤ k) :
    Holds j total v large := by
  rcases h with hsmall | ⟨hlarge, hhuge⟩
  · exact .inl hsmall
  · refine .inr ⟨hlarge, ?_⟩
    cases hhuge with
    | finite hwhole hle => exact .finite hwhole ((pow_le_pow_right₀ (by decide) hjk).trans hle)
    | infinite => exact .infinite

theorem Holds.add (hk : 65 ≤ k) (htotal : Holds (k + 1) total v large)
    (hpart : Holds (k + 1) part w large') :
    Holds k (total.add part) (v + w) (large ∨ large') := by
  rcases htotal with ⟨hsmall, rfl⟩ | ⟨hlarge, hhuge⟩
  · rcases hpart with ⟨hsmall', rfl⟩ | ⟨hlarge', hhuge'⟩
    · refine .inl ⟨by tauto, ?_⟩
      rw [Int64.ofInt_add]
      rfl
    · exact .inr ⟨.inr hlarge', (hhuge'.add hk (.inl ⟨_, rfl⟩)).2⟩
  · refine .inr ⟨.inl hlarge, (hhuge.add hk ?_).1⟩
    rcases hpart with ⟨-, rfl⟩ | ⟨-, hhuge'⟩
    · exact .inl ⟨_, rfl⟩
    · exact .inr hhuge'

theorem Holds.congr (h : Holds k total v large) (hv : v = w) (hlarge : large ↔ large') :
    Holds k total w large' := by
  rw [← hv, Holds, ← hlarge]
  exact h

theorem tonumber_digits (d : Digits) : Holds 63 (tonumber d.text) d.value (2 ^ 63 ≤ d.value) := by
  have hdigit : ∀ c, d.text.head? = some c → c.isDigit = true := fun c hc =>
    isDigit_of_isDigits d.isDigits (List.mem_of_head? hc)
  have hminus : (d.text.head? == some '-') = false := by
    rw [beq_eq_false_iff_ne]
    exact fun h => absurd (hdigit _ h) (by decide)
  have hplus : (d.text.head? == some '+') = false := by
    rw [beq_eq_false_iff_ne]
    exact fun h => absurd (hdigit _ h) (by decide)
  unfold tonumber
  simp only [hminus, hplus, Bool.or_self, Bool.false_eq_true, if_false, false_and, or_false]
  change Holds 63 (if d.value < 2 ^ 63 then _ else _) _ _
  by_cases hlarge : 2 ^ 63 ≤ d.value
  · rw [if_neg (by omega)]
    refine .inr ⟨hlarge, ?_⟩
    have hnearest := Number.nearest_huge (n := d.value) (k := 63) (by decide) (by exact_mod_cast hlarge)
    unfold Number.nearest at hnearest
    rw [Int.natAbs_natCast, decide_eq_false (by omega)] at hnearest
    change (if roundNat d.value < 2 ^ 1024 then _ else _ : Number).Huge 63
    split_ifs at hnearest ⊢
    · exact hnearest
    · exact hnearest
  · rw [if_pos (by omega)]
    exact .inl ⟨hlarge, rfl⟩

/-- A component times its unit. -/
theorem holds_component (d : Digits) (unit : Int64) {j : Nat} (hlow : 1 ≤ unit.toInt)
    (hsmall : unit.toInt < 2 ^ 53) (hpower : 2 ^ j ≤ unit.toInt) :
    Holds (63 + j) ((tonumber d.text).mul (.integer unit)) (d.value * unit.toInt)
      (2 ^ 63 ≤ d.value) := by
  rcases tonumber_digits d with ⟨hnot, hread⟩ | ⟨hlarge, hhuge⟩
  · refine .inl ⟨hnot, ?_⟩
    rw [hread, Int64.ofInt_mul, Int64.ofInt_toInt]
    rfl
  · exact .inr ⟨hlarge, hhuge.mul (by decide) hlow hsmall hpower⟩

/-- One component more. -/
theorem Holds.with {progress : Progress} (h : Holds (k + 1) progress.total v large) (hk : 65 ≤ k)
    (suffix : Char) (unit : Int64) {j : Nat} (hj : k + 1 ≤ 63 + j) (hlow : 1 ≤ unit.toInt)
    (hsmall : unit.toInt < 2 ^ 53) (hpower : 2 ^ j ≤ unit.toInt) (opt : Option Digits) :
    Holds k (progress.with suffix unit opt).total (v + value opt * unit.toInt)
      (large ∨ 2 ^ 63 ≤ value opt) := by
  cases opt with
  | none =>
    refine (h.mono (Nat.le_succ k)).congr ?_ ?_
    · simp [value]
    · simp [value]
  | some d => exact h.add hk ((holds_component d unit hlow hsmall hpower).mono hj)

end Totals

section Seconds
variable {fields : Text} {k : Nat} {v : Int} {large : Prop}

theorem ofDigitChars_lt {text : Text} (h : ∀ c ∈ text, c.isDigit = true) :
    Nat.ofDigitChars 10 text 0 < 10 ^ text.length := by
  induction text with
  | nil => decide
  | cons c text ih =>
    obtain ⟨hc, hrest⟩ := List.forall_mem_cons.mp h
    have hlast := ih hrest
    have hten : c.toNat - '0'.toNat < 10 := sub_lt_ten hc
    rw [Nat.ofDigitChars_cons, Nat.ofDigitChars_eq_ofDigitChars_zero, List.length_cons, pow_succ]
    nlinarith

/-- A fraction filled up to nine digits. -/
def Digits.padded (d : Digits) : Digits where
  text := d.text ++ List.replicate (9 - d.text.length) '0'
  isDigits := by
    have hall : ∀ c ∈ d.text ++ List.replicate (9 - d.text.length) '0', c.isDigit = true := by
      intro c hc
      rcases List.mem_append.mp hc with hdigit | hzero
      · exact isDigit_of_isDigits d.isDigits hdigit
      · rw [List.eq_of_mem_replicate hzero]
        rfl
    unfold Base.isDigits
    have hne : (d.text ++ List.replicate (9 - d.text.length) '0').isEmpty = false := by
      simp [d.ne_nil]
    rw [hne, List.all_eq_true.mpr hall]
    rfl

theorem padded_value (d : Digits) : d.padded.value = 10 ^ (9 - d.text.length) * d.value := by
  unfold Digits.value Digits.padded
  rw [Nat.ofDigitChars_append, Nat.ofDigitChars_replicate_zero]

theorem padded_lt (d : Digits) (h : d.text.length ≤ 9) : d.padded.value < 10 ^ 9 := by
  have hlength : d.padded.text.length = 9 := by
    unfold Digits.padded
    rw [List.length_append, List.length_replicate]
    omega
  exact hlength ▸ ofDigitChars_lt fun c hc => isDigit_of_isDigits d.padded.isDigits hc

/-- The nanoseconds of the seconds and their fraction. -/
def secondNanoseconds : Option (Digits × Option Digits) → Nat
  | none => 0
  | some (seconds, none) => seconds.value * 1000000000
  | some (seconds, some fraction) => seconds.value * 1000000000 + fraction.padded.value

theorem parseSecondField_whole (seconds : Digits) :
    parseSecondField (secondsText (some (seconds, none))) =
      .ok (some (seconds.text ++ ['S'],
        ((tonumber seconds.text).mul (.integer 1000000000)).add (.integer 0))) := by
  unfold parseSecondField
  rw [matchSeconds_text]
  dsimp only [Option.map_none, Option.getD_none]
  rw [if_pos rfl, if_pos rfl]
  simp [bind, Except.bind, pure, Except.pure]

theorem parseSecondField_fraction (seconds fraction : Digits) :
    parseSecondField (secondsText (some (seconds, some fraction))) =
      if fraction.text.length ≤ 9 then .ok (some (seconds.text ++ '.' :: (fraction.text ++ ['S']),
        ((tonumber seconds.text).mul (.integer 1000000000)).add (tonumber fraction.padded.text)))
      else .error
        "invalid temporal exact duration: fractional seconds exceed nanosecond precision" := by
  unfold parseSecondField
  rw [matchSeconds_text]
  dsimp only [Option.map_some, Option.getD_some]
  rw [if_neg fraction.ne_nil, if_neg fraction.ne_nil, fractionalSecondNanoseconds]
  split_ifs with hlength
  · rw [ensure, if_pos hlength]
    simp [bind, Except.bind, pure, Except.pure, Digits.padded]
  · rw [ensure, if_neg hlength]
    rfl

/-- The seconds are consumed unless their fraction is too long. -/
theorem consumeSeconds_text (progress : Progress) (seconds : Option (Digits × Option Digits))
    (hfields : fields = progress.consumed ++ secondsText seconds)
    (hlength : ∀ fraction, seconds.bind Prod.snd = some fraction → fraction.text.length ≤ 9)
    (h : Holds (k + 1) progress.total v large) (hk : 65 ≤ k) (hk' : k ≤ 90) :
    ∃ last, consumeSeconds fields progress = .ok last ∧
      last.saw = (progress.saw || seconds.isSome) ∧
      last.consumed = progress.consumed ++ secondsText seconds ∧
        Holds k last.total (v + secondNanoseconds seconds)
          (large ∨ 2 ^ 63 ≤ value (seconds.map Prod.fst)) := by
  have hunit : (1000000000 : Int64).toInt = 1000000000 := by decide
  have hcomponent := fun d => holds_component d 1000000000 (j := 29) (by decide)
    (by decide) (by decide)
  unfold consumeSeconds
  rw [hfields, List.drop_left]
  match seconds with
  | none =>
    refine ⟨progress, rfl, (Bool.or_false _).symm, (List.append_nil _).symm, ?_⟩
    refine (h.mono (Nat.le_succ k)).congr (by simp [secondNanoseconds]) (by simp [value])
  | some (seconds, none) =>
    rw [parseSecondField_whole]
    refine ⟨_, rfl, by simp, rfl, ?_⟩
    have hzero : Holds 92 (.integer 0) 0 False := .inl ⟨not_false, rfl⟩
    have hpart := ((hcomponent seconds).add (k := 91) (by decide) hzero).mono
      (show k + 1 ≤ 91 by omega)
    refine (h.add hk hpart).congr ?_ ?_
    · rw [hunit]
      simp [secondNanoseconds]
    · simp [value]
  | some (seconds, some fraction) =>
    have hfits := hlength fraction rfl
    rw [parseSecondField_fraction, if_pos hfits]
    refine ⟨_, rfl, by simp, rfl, ?_⟩
    have hsmall := padded_lt fraction hfits
    have hfraction : Holds 92 (tonumber fraction.padded.text) fraction.padded.value False := by
      rcases tonumber_digits fraction.padded with ⟨-, hread⟩ | ⟨hlarge, -⟩
      · exact .inl ⟨not_false, hread⟩
      · omega
    have hpart := ((hcomponent seconds).add (k := 91) (by decide) hfraction).mono
      (show k + 1 ≤ 91 by omega)
    refine (h.add hk hpart).congr ?_ ?_
    · rw [hunit]
      push_cast [secondNanoseconds]
      ring
    · simp [value]

end Seconds

section Bodies
variable (d : DurationText)

theorem saw_with (progress : Progress) (suffix : Char) (unit : Int64) (opt : Option Digits) :
    (progress.with suffix unit opt).saw = (progress.saw || opt.isSome) := by
  cases opt with
  | none => exact (Bool.or_false _).symm
  | some d => exact (Bool.or_true _).symm

theorem componentText_eq_nil {suffix : Char} {opt : Option Digits} :
    componentText suffix opt = [] ↔ opt.isSome = false := by
  cases opt with
  | none => exact iff_of_true rfl rfl
  | some d => exact iff_of_false (by simp [componentText]) (by simp)

theorem secondsText_eq_nil {seconds : Option (Digits × Option Digits)} :
    secondsText seconds = [] ↔ seconds.isSome = false := by
  match seconds with
  | none => exact iff_of_true rfl rfl
  | some (seconds, none) => exact iff_of_false (by simp [secondsText]) (by simp)
  | some (seconds, some fraction) => exact iff_of_false (by simp [secondsText]) (by simp)

/-- A duration with a time has an hour, a minute or a second. -/
theorem time_ne_nil (h : d.time ≠ []) :
    (d.hours.isSome || d.minutes.isSome || d.seconds.isSome) = true := by
  by_contra hnone
  simp only [Bool.or_eq_true, not_or, Bool.not_eq_true] at hnone
  obtain ⟨⟨hhours, hminutes⟩, hseconds⟩ := hnone
  refine h ?_
  rw [DurationText.time, componentText_eq_nil.mpr hhours, componentText_eq_nil.mpr hminutes,
    secondsText_eq_nil.mpr hseconds]
  rfl

/-- What follows the sign. -/
def body : Text :=
  'P' :: (componentText 'W' d.weeks ++
    (componentText 'D' d.days ++ if d.time = [] then [] else 'T' :: d.time))

theorem body_of_timeOnly (h : d.TimeOnly) : body d = 'P' :: 'T' :: d.time := by
  obtain ⟨hweeks, hdays, htime⟩ := h
  rw [body, hweeks, hdays, if_neg htime]
  rfl

theorem take_body_of_not_timeOnly (h : ¬ d.TimeOnly) : (body d).take 2 ≠ ['P', 'T'] := by
  have hstart : ∀ (e : Digits) (rest : Text), ('P' :: (e.text ++ rest)).take 2 ≠ ['P', 'T'] := by
    intro e rest hprefix
    cases htext : e.text with
    | nil => exact e.ne_nil htext
    | cons c more =>
      have hdigit := isDigit_of_isDigits e.isDigits (htext ▸ List.mem_cons_self : c ∈ e.text)
      rw [htext] at hprefix
      obtain rfl : c = 'T' := by simpa using hprefix
      cases hdigit
  unfold body
  cases hweeks : d.weeks with
  | some weeks =>
    rw [componentText, List.append_assoc]
    exact hstart _ _
  | none =>
    cases hdays : d.days with
    | some days =>
      rw [componentText, componentText, List.nil_append, List.append_assoc]
      exact hstart _ _
    | none =>
      have htime : d.time = [] := by
        by_contra hne
        exact h ⟨hweeks, hdays, hne⟩
      rw [if_pos htime]
      decide

theorem text_parts : (d.text.head? == some '-') = d.negative ∧
    (if d.negative then d.text.tail else d.text) = body d := by
  cases hnegative : d.negative <;> simp [DurationText.text, body, hnegative]

theorem hours_notFirst : NotFirst 'H' (componentText 'M' d.minutes ++ secondsText d.seconds) :=
  notFirst_component d.minutes rfl (by decide)
    (notFirst_seconds d.seconds (by decide) (by decide))

/-- The hours and minutes of a time are consumed. -/
theorem consume_hours_minutes (hourUnit minuteUnit : Int64) :
    consumeUnit 'M' minuteUnit d.time (consumeUnit 'H' hourUnit d.time .start) =
      (Progress.start.with 'H' hourUnit d.hours).with 'M' minuteUnit d.minutes := by
  have htime : d.time = Progress.start.consumed ++ (componentText 'H' d.hours ++
      (componentText 'M' d.minutes ++ secondsText d.seconds)) := rfl
  rw [consumeUnit_text .start hourUnit d.hours rfl (hours_notFirst d) htime]
  refine consumeUnit_text _ minuteUnit d.minutes rfl
    (notFirst_seconds d.seconds (by decide) (by decide)) ?_
  rw [consumed_with, htime, List.append_assoc]

theorem consumed_hours_minutes (hourUnit minuteUnit : Int64) :
    d.time = ((Progress.start.with 'H' hourUnit d.hours).with 'M' minuteUnit d.minutes).consumed ++
      secondsText d.seconds := by
  rw [consumed_with, consumed_with, List.append_assoc, List.append_assoc]
  rfl

end Bodies

section Results
variable {binding : Binding} {k : Nat} {total : Number} {v : Int} {large : Prop} {negative : Bool}

theorem toInt64_small (hnot : ¬ large) (h : Holds k total v large) :
    binding.toInt64 (if negative then total.neg else total) =
      .ok (.ofInt ((if negative then -1 else 1) * v)) := by
  rcases h with ⟨-, rfl⟩ | ⟨hlarge, -⟩
  · cases negative with
    | true =>
      simp only [if_true, neg_one_mul, Int64.ofInt_neg]
      rfl
    | false =>
      simp only [Bool.false_eq_true, if_false, one_mul]
      rfl
  · exact absurd hlarge hnot

/-- A huge double is no argument of 64 bits. -/
theorem toInt64_large (hlarge : large) (h : Holds k total v large) (hk : 64 ≤ k) :
    ∃ x, binding.toInt64 (if negative then total.neg else total) =
      if binding.checked then .error "not an integer" else .ok (binding.convert x) := by
  have hpower : (2 : Int) ^ 64 ≤ 2 ^ k := pow_le_pow_right₀ (by decide) hk
  have hnone : ∀ x, wholeInt64 x = none → binding.toInt64 (.float x) =
      if binding.checked then .error "not an integer" else .ok (binding.convert x) := by
    intro x hx
    unfold Binding.toInt64
    dsimp only
    rw [hx]
  rcases h with ⟨hnot, -⟩ | ⟨-, hhuge⟩
  · exact absurd hlarge hnot
  · cases hhuge with
    | infinite =>
      cases negative with
      | true => exact ⟨_, hnone _ rfl⟩
      | false => exact ⟨_, hnone _ rfl⟩
    | @finite q hwhole hle =>
      cases negative with
      | false =>
        refine ⟨_, hnone (.finite q) (if_neg ?_)⟩
        rintro ⟨-, -, hhigh⟩
        omega
      | true =>
        refine ⟨_, hnone (.finite (-q)) (if_neg ?_)⟩
        rintro ⟨-, hlow, -⟩
        have hfloor : ⌊-q⌋ = -⌊q⌋ := by
          rw [hwhole, ← Int.cast_neg, Int.floor_intCast, Int.floor_intCast]
        rw [hfloor] at hlow
        omega

end Results

section Exactness
variable {binding : Binding} {d : DurationText}

/-- The nanoseconds of the hours, minutes and seconds. -/
def totalNanoseconds (d : DurationText) : Nat :=
  value d.hours * 3600000000000 + value d.minutes * 60000000000 + secondNanoseconds d.seconds

def FitsNanoseconds (d : DurationText) : Prop :=
  ∀ fraction, d.fraction = some fraction → fraction.text.length ≤ 9

theorem parseNanoseconds_refused (h : ¬ d.TimeOnly) :
    ∃ e, parseNanoseconds binding d.text = .error e := by
  refine ⟨"invalid temporal exact duration", ?_⟩
  obtain ⟨hsign, hbody⟩ := text_parts d
  simp only [parseNanoseconds, hsign, hbody, ensure, if_neg (take_body_of_not_timeOnly d h)]
  rfl

/-- The components before the seconds are consumed in any case. -/
theorem parseNanoseconds_timeOnly (hd : d.TimeOnly) :
    parseNanoseconds binding d.text = (do
      let progress ← consumeSeconds d.time
        ((Progress.start.with 'H' 3600000000000 d.hours).with 'M' 60000000000 d.minutes)
      ensure (progress.saw = true ∧ progress.consumed = d.time) "invalid temporal exact duration"
      let n ← binding.toInt64 (if d.negative then progress.total.neg else progress.total)
      pure n.toInt) := by
  obtain ⟨hsign, hbody⟩ := text_parts d
  have hfields : ('P' :: 'T' :: d.time).drop 2 = d.time := rfl
  have hprefix : ('P' :: 'T' :: d.time).take 2 = ['P', 'T'] := rfl
  simp only [parseNanoseconds, hsign, hbody, body_of_timeOnly d hd, hfields, hprefix, ensure,
    if_true, if_pos hd.2.2, consume_hours_minutes, bind, Except.bind]

theorem parseNanoseconds_tooFine (h : ¬ FitsNanoseconds d) (hd : d.TimeOnly) :
    ∃ e, parseNanoseconds binding d.text = .error e := by
  have hlong : ∃ seconds fraction, d.seconds = some (seconds, some fraction) ∧
      ¬ fraction.text.length ≤ 9 := by
    unfold FitsNanoseconds DurationText.fraction at h
    push Not at h
    obtain ⟨fraction, hfraction, hlength⟩ := h
    obtain ⟨⟨seconds, found⟩, hseconds, hfound⟩ := Option.bind_eq_some_iff.mp hfraction
    obtain rfl : found = some fraction := hfound
    exact ⟨seconds, fraction, hseconds, by omega⟩
  obtain ⟨seconds, fraction, hseconds, hlength⟩ := hlong
  refine ⟨"invalid temporal exact duration: fractional seconds exceed nanosecond precision", ?_⟩
  rw [parseNanoseconds_timeOnly hd, consumeSeconds,
    consumed_hours_minutes d 3600000000000 60000000000, List.drop_left, hseconds,
    parseSecondField_fraction, if_neg hlength]
  rfl

/-- What the total of a duration's components is, and that it is what is handed on. -/
theorem parseNanoseconds_total (hd : d.TimeOnly) (hfits : FitsNanoseconds d) :
    ∃ total, Holds 66 total (totalNanoseconds d) d.Large ∧
      parseNanoseconds binding d.text = (do
        let n ← binding.toInt64 (if d.negative then total.neg else total)
        pure n.toInt) := by
  have htime := consumed_hours_minutes d 3600000000000 60000000000
  have hstart : Holds 69 Progress.start.total 0 False := .inl ⟨not_false, rfl⟩
  have hhours := hstart.with (by decide) 'H' 3600000000000 (j := 41) (by decide)
    (by decide) (by decide) (by decide) d.hours
  have hminutes := hhours.with (by decide) 'M' 60000000000 (j := 35) (by decide)
    (by decide) (by decide) (by decide) d.minutes
  obtain ⟨last, hlast, hsaw, hconsumed, htotal⟩ :=
    consumeSeconds_text _ d.seconds htime hfits hminutes (by decide) (by decide)
  refine ⟨last.total, htotal.congr ?_ ?_, ?_⟩
  · have hhour : (3600000000000 : Int64).toInt = 3600000000000 := by decide
    have hminute : (60000000000 : Int64).toInt = 60000000000 := by decide
    rw [hhour, hminute]
    push_cast [totalNanoseconds]
    ring
  · unfold DurationText.Large
    tauto
  · have hall : last.saw = true ∧ last.consumed = d.time := by
      refine ⟨?_, by rw [hconsumed, ← htime]⟩
      rw [hsaw, saw_with, saw_with]
      have hsome := time_ne_nil d hd.2.2
      simpa [Progress.start] using hsome
    rw [parseNanoseconds_timeOnly hd, hlast]
    simp only [ensure, hall, and_self, if_true, bind, Except.bind]

/-- The sign of a duration. -/
def sign (negative : Bool) : Int := if negative then -1 else 1

theorem nanoseconds_eq (hd : d.TimeOnly) (hfits : FitsNanoseconds d) :
    d.nanoseconds = ((sign d.negative * totalNanoseconds d : Int) : ℚ) := by
  obtain ⟨hweeks, hdays, -⟩ := hd
  have hsign : ((sign d.negative : Int) : ℚ) = if d.negative then -1 else 1 := by
    unfold sign
    split_ifs <;> norm_cast
  have htotal : (((value d.weeks * 7 + value d.days) * 86400 + d.wholeSeconds +
      d.fractionOfSecond) * 1000000000 : ℚ) = (totalNanoseconds d : ℚ) := by
    rw [hweeks, hdays]
    unfold FitsNanoseconds DurationText.fraction at hfits
    unfold DurationText.wholeSeconds DurationText.fractionOfSecond DurationText.fraction
      totalNanoseconds
    match hseconds : d.seconds with
    | none =>
      simp only [Option.bind_none, Option.map_none, value, secondNanoseconds]
      push_cast
      ring
    | some (seconds, none) =>
      simp only [Option.bind_some, Option.map_some, value, secondNanoseconds]
      push_cast
      ring
    | some (seconds, some fraction) =>
      have hlength := hfits fraction (by rw [hseconds]; rfl)
      have hpower : (10 : ℚ) ^ 9 = 10 ^ (9 - fraction.text.length) * 10 ^ fraction.text.length := by
        rw [← pow_add]
        congr 1
        omega
      have hscaled : (fraction.value : ℚ) / 10 ^ fraction.text.length * 1000000000 =
          10 ^ (9 - fraction.text.length) * fraction.value := by
        have hne : (10 : ℚ) ^ fraction.text.length ≠ 0 := by positivity
        rw [show (1000000000 : ℚ) = 10 ^ 9 by norm_num, hpower]
        field_simp
      simp only [Option.bind_some, Option.map_some, value, secondNanoseconds,
        padded_value]
      push_cast
      linear_combination hscaled
  unfold DurationText.nanoseconds
  rw [htotal, ← hsign]
  push_cast
  ring

theorem lt_total_of_large (h : d.Large) : 2 ^ 63 < totalNanoseconds d := by
  unfold totalNanoseconds
  rcases h with hhours | hminutes | hseconds
  · omega
  · omega
  · match hparts : d.seconds with
    | none =>
      rw [hparts] at hseconds
      simp [value] at hseconds
    | some (seconds, none) =>
      rw [hparts] at hseconds
      simp only [Option.map_some, value] at hseconds
      simp only [secondNanoseconds]
      omega
    | some (seconds, some fraction) =>
      rw [hparts] at hseconds
      simp only [Option.map_some, value] at hseconds
      simp only [secondNanoseconds]
      omega

/-- A parser gives the exact value of a duration or refuses its text. -/
def Exact (parse : Text → Except String Int) (d : DurationText) : Prop :=
  ∀ n, parse d.text = .ok n → (n : ℚ) = d.nanoseconds

theorem bmod_eq_self_iff (n : Int) : n.bmod (2 ^ 64) = n ↔ InRange n := by
  unfold InRange
  rw [Int.bmod_def]
  constructor
  · intro h
    split_ifs at h <;> omega
  · rintro ⟨hlow, hhigh⟩
    split_ifs <;> omega

/-- A refused text has no value to be wrong. -/
theorem exact_of_refused {parse : Text → Except String Int} (h : ∃ e, parse d.text = .error e) :
    Exact parse d := by
  obtain ⟨e, he⟩ := h
  intro n hn
  rw [he] at hn
  cases hn

/-- The grammar of intervals is exact for a duration whose nanoseconds fit in 64 bits, for a text it
refuses, and, where numbers are checked, for a part that is too large for an integer. -/
theorem parseNanoseconds_exact (binding : Binding) (d : DurationText) :
    Exact (parseNanoseconds binding) d ↔
      ¬ d.TimeOnly ∨ ¬ FitsNanoseconds d ∨
        (-2 ^ 63 ≤ d.nanoseconds ∧ d.nanoseconds < 2 ^ 63) ∨
          (d.Large ∧ binding.checked = true) := by
  by_cases hd : d.TimeOnly
  swap
  · exact iff_of_true (exact_of_refused (parseNanoseconds_refused hd)) (.inl hd)
  by_cases hfits : FitsNanoseconds d
  swap
  · exact iff_of_true (exact_of_refused (parseNanoseconds_tooFine hfits hd)) (.inr (.inl hfits))
  have hvalue := nanoseconds_eq hd hfits
  have hrange : (-2 ^ 63 ≤ d.nanoseconds ∧ d.nanoseconds < 2 ^ 63) ↔
      InRange (sign d.negative * totalNanoseconds d) := by
    rw [hvalue, InRange]
    norm_cast
  obtain ⟨total, htotal, hparse⟩ := @parseNanoseconds_total binding d hd hfits
  rw [hrange]
  by_cases hlarge : d.Large
  · obtain ⟨x, hx⟩ : ∃ x, binding.toInt64 (if d.negative then total.neg else total) =
        if binding.checked then .error "not an integer" else .ok (binding.convert x) :=
      toInt64_large hlarge htotal (by decide)
    have houtside : ¬ InRange (sign d.negative * totalNanoseconds d) := by
      have := lt_total_of_large hlarge
      unfold InRange sign
      split_ifs <;> omega
    unfold Exact
    rw [hparse, hx, hvalue]
    cases hchecked : binding.checked with
    | true =>
      refine iff_of_true (fun n hn => ?_) (.inr (.inr (.inr ⟨hlarge, rfl⟩)))
      cases hn
    | false =>
      refine iff_of_false (fun h => ?_) ?_
      · have hconverted := h (binding.convert x).toInt rfl
        refine houtside ?_
        have hsame : (binding.convert x).toInt = sign d.negative * totalNanoseconds d := by
          exact_mod_cast hconverted
        rw [← hsame]
        exact ⟨(binding.convert x).le_toInt, (binding.convert x).toInt_lt⟩
      · rintro (hnot | hnot | hin | ⟨-, htrue⟩)
        · exact hnot hd
        · exact hnot hfits
        · exact houtside hin
        · cases htrue
  · have hsmall : binding.toInt64 (if d.negative then total.neg else total) =
        .ok (.ofInt (sign d.negative * totalNanoseconds d)) := toInt64_small hlarge htotal
    have hresult : parseNanoseconds binding d.text =
        .ok ((sign d.negative * totalNanoseconds d).bmod (2 ^ 64)) := by
      rw [hparse, hsmall]
      change Except.ok _ = _
      rw [Int64.toInt_ofInt]
      rfl
    unfold Exact
    rw [hresult, hvalue]
    constructor
    · intro h
      have := h _ rfl
      exact .inr (.inr (.inl ((bmod_eq_self_iff _).mp (by exact_mod_cast this))))
    · rintro (hnot | hnot | hin | ⟨hhuge, -⟩) n hn
      · exact absurd hd hnot
      · exact absurd hfits hnot
      · rw [← Except.ok.inj hn, (bmod_eq_self_iff _).mpr hin]
      · exact absurd hhuge hlarge

end Exactness

section Timed
variable {binding : Binding} {d : DurationText}

def addComponent (total : Number) (unit : Int64) : Option Digits → Number
  | none => total
  | some d => total.add ((tonumber d.text).mul (.integer unit))

/-- The seconds of a duration as the language adds them up. -/
def luaSeconds (d : DurationText) : Number :=
  match d.seconds with
  | none => addComponent (addComponent (.integer 0) 3600 d.hours) 60 d.minutes
  | some (seconds, _) =>
    (addComponent (addComponent (.integer 0) 3600 d.hours) 60 d.minutes).add
      (tonumber seconds.text)

theorem total_with (progress : Progress) (suffix : Char) (unit : Int64) (opt : Option Digits) :
    (progress.with suffix unit opt).total = addComponent progress.total unit opt := by
  cases opt <;> rfl

theorem luaSeconds_small (h : ¬ d.Large) : luaSeconds d = .integer (.ofInt d.wholeSeconds) := by
  have hhour : (3600 : Int64).toInt = 3600 := by decide
  have hminute : (60 : Int64).toInt = 60 := by decide
  have hstart : Holds 67 Progress.start.total 0 False := .inl ⟨not_false, rfl⟩
  have hhours := hstart.with (by decide) 'H' 3600 (j := 11) (by decide)
    (by decide) (by decide) (by decide) d.hours
  have hminutes := hhours.with (k := 65) (by decide) 'M' 60 (j := 5) (by decide)
    (by decide) (by decide) (by decide) d.minutes
  rw [total_with, total_with, hhour, hminute] at hminutes
  unfold DurationText.Large at h
  push Not at h
  obtain ⟨hsmallHours, hsmallMinutes, hsmallSeconds⟩ := h
  have htotal : addComponent (addComponent (.integer 0) 3600 d.hours) 60 d.minutes =
      .integer (.ofInt (0 + value d.hours * 3600 + value d.minutes * 60)) := by
    rcases hminutes with ⟨-, htotal⟩ | ⟨(hlarge | hlarge) | hlarge, -⟩
    · exact htotal
    · exact absurd hlarge not_false
    · omega
    · omega
  unfold luaSeconds DurationText.wholeSeconds
  rw [htotal]
  match hseconds : d.seconds with
  | none => simp [value]
  | some (seconds, fraction) =>
    rw [hseconds] at hsmallSeconds
    change seconds.value < 2 ^ 63 at hsmallSeconds
    rcases tonumber_digits seconds with ⟨-, hread⟩ | ⟨hlarge, -⟩
    · change Number.add (.integer _) (tonumber seconds.text) = _
      rw [hread]
      change Number.integer (_ + _) = _
      rw [← Int64.ofInt_add]
      simp [value]
    · omega

theorem parseTimed_refused
    (h : ¬ d.TimeOnly ∨ d.negative = true ∨ d.fraction.isSome = true) :
    ∃ e, parseTimed binding d.text = .error e := by
  refine ⟨"invalid temporal ICS timed DURATION", ?_⟩
  by_cases hnegative : d.negative = true
  · have htake : d.text.take 2 ≠ ['P', 'T'] := by
      unfold DurationText.text
      rw [if_pos hnegative]
      intro hprefix
      have := (List.cons.inj hprefix).1
      exact absurd this (by decide)
    simp only [parseTimed, ensure, if_neg htake]
    rfl
  have hbody : d.text = body d := by
    unfold DurationText.text body
    rw [if_neg hnegative, List.nil_append]
  by_cases hd : d.TimeOnly
  swap
  · simp only [parseTimed, hbody, ensure, if_neg (take_body_of_not_timeOnly d hd)]
    rfl
  have hfraction : d.fraction.isSome = true := by tauto
  obtain ⟨fraction, hfound⟩ := Option.isSome_iff_exists.mp hfraction
  obtain ⟨⟨seconds, found⟩, hseconds, hsame⟩ := Option.bind_eq_some_iff.mp hfound
  obtain rfl : found = some fraction := hsame
  have htime := consumed_hours_minutes d 3600 60
  have hlast : consumeLastSeconds d.time
      ((Progress.start.with 'H' 3600 d.hours).with 'M' 60 d.minutes) =
        (Progress.start.with 'H' 3600 d.hours).with 'M' 60 d.minutes := by
    unfold consumeLastSeconds
    rw [htime, List.drop_left, hseconds]
    dsimp only [secondsText]
    rw [matchComponent_digits seconds rfl, if_neg (by decide)]
  have hrest : ((Progress.start.with 'H' 3600 d.hours).with 'M' 60 d.minutes).consumed ≠
      d.time := by
    intro hsame
    rw [← hsame, hseconds] at htime
    have := List.self_eq_append_right.mp htime
    rw [secondsText] at this
    simp at this
  have hfields : ('P' :: 'T' :: d.time).drop 2 = d.time := rfl
  have hprefix : ('P' :: 'T' :: d.time).take 2 = ['P', 'T'] := rfl
  simp only [parseTimed, hbody, body_of_timeOnly d hd, hfields, hprefix, ensure, if_true,
    if_pos hd.2.2, consume_hours_minutes, hlast, hrest, and_false, if_false, bind, Except.bind]

theorem consumeLastSeconds_none (progress : Progress) :
    consumeLastSeconds progress.consumed progress = progress := by
  unfold consumeLastSeconds
  rw [List.drop_length]
  rfl

theorem consumeLastSeconds_whole (progress : Progress) (seconds : Digits) :
    consumeLastSeconds (progress.consumed ++ (seconds.text ++ ['S'])) progress =
      ⟨progress.consumed ++ seconds.text ++ ['S'], progress.total.add (tonumber seconds.text),
        true⟩ := by
  unfold consumeLastSeconds
  dsimp only
  rw [List.drop_left, matchComponent_digits seconds rfl, if_pos rfl]
  exact if_pos rfl

/-- The seconds of an accepted text are handed on as the language adds them up. -/
theorem parseTimed_text (hd : d.TimeOnly) (hnegative : d.negative = false)
    (hfraction : d.fraction = none) :
    parseTimed binding d.text = (do
      let seconds ← binding.toInt64 (luaSeconds d)
      fromSeconds seconds) := by
  have hbody : d.text = body d := by
    unfold DurationText.text body
    rw [hnegative]
    rfl
  have htime := consumed_hours_minutes d 3600 60
  have hsome := time_ne_nil d hd.2.2
  obtain ⟨last, hlast, hsaw, hconsumed, htotal⟩ :
      ∃ last, consumeLastSeconds d.time
        ((Progress.start.with 'H' 3600 d.hours).with 'M' 60 d.minutes) = last ∧
        last.saw = true ∧ last.consumed = d.time ∧ last.total = luaSeconds d := by
    cases hseconds : d.seconds with
    | none =>
      rw [hseconds, secondsText, List.append_nil] at htime
      rw [hseconds] at hsome
      rw [htime]
      refine ⟨_, consumeLastSeconds_none _, ?_, rfl, ?_⟩
      · rw [saw_with, saw_with]
        simpa [Progress.start] using hsome
      · rw [total_with, total_with, luaSeconds, hseconds]
        rfl
    | some parts =>
      obtain ⟨seconds, found⟩ := parts
      have hnone : found = none := by
        rw [DurationText.fraction, hseconds] at hfraction
        exact hfraction
      rw [hseconds, hnone, secondsText] at htime
      rw [htime]
      refine ⟨_, consumeLastSeconds_whole _ seconds, rfl, List.append_assoc _ _ _, ?_⟩
      rw [luaSeconds, hseconds]
      dsimp only
      rw [total_with, total_with]
      rfl
  have hfields : ('P' :: 'T' :: d.time).drop 2 = d.time := rfl
  have hprefix : ('P' :: 'T' :: d.time).take 2 = ['P', 'T'] := rfl
  simp only [parseTimed, hbody, body_of_timeOnly d hd, hfields, hprefix, ensure, if_true,
    if_pos hd.2.2, consume_hours_minutes, hlast, hsaw, hconsumed, htotal, and_self, bind,
    Except.bind]

theorem fromSeconds_eq_ok {seconds : Int64} {n : Int} :
    fromSeconds seconds = .ok n ↔
      InRange (seconds.toInt * nanosPerSecond) ∧ seconds.toInt * nanosPerSecond = n := by
  unfold fromSeconds checked
  constructor
  · intro h
    split_ifs at h with hrange
    · exact ⟨hrange, Except.ok.inj h⟩
    · cases h
  · rintro ⟨hrange, rfl⟩
    rw [dif_pos hrange]
    rfl

/-- The value of a text without weeks, days, sign and fraction. -/
theorem nanoseconds_timed (hd : d.TimeOnly) (hnegative : d.negative = false)
    (hfraction : d.fraction = none) :
    d.nanoseconds = ((d.wholeSeconds * nanosPerSecond : Int) : ℚ) := by
  obtain ⟨hweeks, hdays, -⟩ := hd
  unfold DurationText.nanoseconds DurationText.fractionOfSecond nanosPerSecond
  rw [hweeks, hdays, hnegative, hfraction]
  simp [value]

theorem inRange_nanoseconds_iff {t : Int} :
    InRange (t * nanosPerSecond) ↔ |t| ≤ 9223372036 := by
  unfold InRange nanosPerSecond
  rw [abs_le]
  omega

theorem bmod_of_near {v : Int} {k : Nat} (h : |v - k * 2 ^ 64| ≤ 9223372036) :
    v.bmod (2 ^ 64) = v - k * 2 ^ 64 := by
  obtain ⟨hlow, hhigh⟩ := abs_le.mp h
  rw [Int.bmod_def]
  split_ifs <;> omega

/-- The number of seconds, reduced to 64 bits, has nanoseconds of 64 bits only close to a multiple
of `2 ^ 64`. -/
theorem inRange_bmod_iff {v : Nat} :
    (InRange (Int.bmod v (2 ^ 64) * nanosPerSecond) → Int.bmod v (2 ^ 64) = v) ↔
      ∀ k : ℕ, 0 < k → 9223372036 < |(v : Int) - k * 2 ^ 64| := by
  rw [inRange_nanoseconds_iff]
  constructor
  · intro h k hk
    by_contra hnear
    have hmod := bmod_of_near (not_lt.mp hnear)
    have hsame := h (hmod ▸ not_lt.mp hnear)
    omega
  · intro h hnear
    obtain ⟨j, hj⟩ : ∃ j : Int, Int.bmod v (2 ^ 64) = v - j * 2 ^ 64 := by
      refine ⟨Int.bdiv v (2 ^ 64), ?_⟩
      have hdiv := Int.bmod_add_bdiv' v (2 ^ 64)
      push_cast at hdiv
      exact eq_sub_of_add_eq hdiv
    rw [hj] at hnear ⊢
    have hbounds := abs_le.mp hnear
    rcases lt_trichotomy j 0 with hneg | rfl | hpos
    · omega
    · omega
    · have := h j.toNat (by omega)
      rw [Int.toNat_of_nonneg hpos.le] at this
      omega

theorem parseTimed_exact (binding : Binding) (d : DurationText) :
    Exact (parseTimed binding) d ↔
      ¬ d.TimeOnly ∨ d.negative = true ∨ d.fraction.isSome = true ∨
        (¬ d.Large ∧ ∀ k : ℕ, 0 < k → 9223372036 < |(d.wholeSeconds : Int) - k * 2 ^ 64|) ∨
          (d.Large ∧ ∀ seconds, binding.toInt64 (luaSeconds d) = .ok seconds →
            ¬ InRange (seconds.toInt * nanosPerSecond)) := by
  by_cases hrefused : ¬ d.TimeOnly ∨ d.negative = true ∨ d.fraction.isSome = true
  · refine iff_of_true (exact_of_refused (parseTimed_refused hrefused)) ?_
    tauto
  push Not at hrefused
  obtain ⟨hd, hnegative, hfraction⟩ := hrefused
  have hnegative' : d.negative = false := by simpa using hnegative
  have hfraction' : d.fraction = none := by simpa using hfraction
  have hvalue := nanoseconds_timed hd hnegative' hfraction'
  have hparse := @parseTimed_text binding d hd hnegative' hfraction'
  have hexact : Exact (parseTimed binding) d ↔ ∀ seconds,
      binding.toInt64 (luaSeconds d) = .ok seconds → InRange (seconds.toInt * nanosPerSecond) →
        seconds.toInt = d.wholeSeconds := by
    unfold Exact
    rw [hparse, hvalue]
    constructor
    · intro h seconds hseconds hrange
      have := h _ (bind_eq_ok.mpr ⟨seconds, hseconds, fromSeconds_eq_ok.mpr ⟨hrange, rfl⟩⟩)
      have hsame : seconds.toInt * nanosPerSecond = d.wholeSeconds * nanosPerSecond := by
        exact_mod_cast this
      unfold nanosPerSecond at hsame
      omega
    · intro h n hn
      obtain ⟨seconds, hseconds, hfrom⟩ := bind_eq_ok.mp hn
      obtain ⟨hrange, rfl⟩ := fromSeconds_eq_ok.mp hfrom
      rw [h seconds hseconds hrange]
  rw [hexact]
  by_cases hlarge : d.Large
  · have hbig : 2 ^ 63 ≤ d.wholeSeconds := by
      unfold DurationText.wholeSeconds
      rcases hlarge with h | h | h <;> omega
    constructor
    · intro h
      refine .inr (.inr (.inr (.inr ⟨hlarge, fun seconds hseconds hrange => ?_⟩)))
      have := h seconds hseconds hrange
      have := seconds.toInt_lt
      omega
    · rintro (h | h | h | ⟨h, -⟩ | ⟨-, h⟩) seconds hseconds hrange
      · exact absurd hd h
      · exact absurd h hnegative
      · exact absurd h hfraction
      · exact absurd hlarge h
      · exact absurd hrange (h seconds hseconds)
  · have hinteger : binding.toInt64 (luaSeconds d) = .ok (.ofInt d.wholeSeconds) := by
      rw [luaSeconds_small hlarge]
      rfl
    rw [hinteger]
    simp only [Except.ok.injEq, forall_eq', Int64.toInt_ofInt]
    rw [show Int64.size = 2 ^ 64 from rfl, inRange_bmod_iff]
    tauto

end Timed

/-- Both parsers, each with the texts it reads exactly or refuses. -/
theorem exact_durations (binding : Binding) (d : DurationText) :
    (Exact (parseNanoseconds binding) d ↔
      ¬ d.TimeOnly ∨ ¬ FitsNanoseconds d ∨
        (-2 ^ 63 ≤ d.nanoseconds ∧ d.nanoseconds < 2 ^ 63) ∨
          (d.Large ∧ binding.checked = true)) ∧
    (Exact (parseTimed binding) d ↔
      ¬ d.TimeOnly ∨ d.negative = true ∨ d.fraction.isSome = true ∨
        (¬ d.Large ∧ ∀ k : ℕ, 0 < k → 9223372036 < |(d.wholeSeconds : Int) - k * 2 ^ 64|) ∨
          (d.Large ∧ ∀ seconds, binding.toInt64 (luaSeconds d) = .ok seconds →
            ¬ InRange (seconds.toInt * nanosPerSecond))) :=
  ⟨parseNanoseconds_exact binding d, parseTimed_exact binding d⟩

/-- The text `PT2562048H`. -/
def manyHours : DurationText :=
  ⟨false, none, none, some ⟨['2', '5', '6', '2', '0', '4', '8'], rfl⟩, none, none⟩

/-- The text `PT5124095576030432H`. -/
def mostHours : DurationText :=
  ⟨false, none, none, some ⟨['5', '1', '2', '4', '0', '9', '5', '5', '7', '6', '0', '3', '0', '4',
    '3', '2'], rfl⟩, none, none⟩

/-- The hours of 292 years come out as a negative number of nanoseconds, and a number of hours whose
seconds pass `2 ^ 64` as less than an hour. -/
theorem many_hours_wrap :
    (∀ binding, parseNanoseconds binding manyHours.text = .ok (-9223371273709551616) ∧
      parseTimed binding mostHours.text = .ok 3584000000000) ∧
    manyHours.nanoseconds = 9223372800000000000 ∧
    mostHours.nanoseconds = 18446744073709555200000000000 := by
  refine ⟨fun binding => ⟨rfl, rfl⟩, ?_, ?_⟩
  · have hseconds : manyHours.wholeSeconds = 9223372800 := rfl
    rw [nanoseconds_timed ⟨rfl, rfl, by decide⟩ rfl rfl, hseconds, nanosPerSecond]
    norm_num
  · have hseconds : mostHours.wholeSeconds = 18446744073709555200 := rfl
    rw [nanoseconds_timed ⟨rfl, rfl, by decide⟩ rfl rfl, hseconds, nanosPerSecond]
    norm_num

end ExactDuration

end Space2.Temporal
