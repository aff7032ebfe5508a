import Space2.Base.Calendar
import Space2.Base.Checks
import Space2.Base.LuaText
import Mathlib

/-!
# Date-times

A plain date-time and an instant are both a count of nanoseconds from the epoch in 64 bits. The
calendar fields of a date-time are computed from the count.
-/
namespace Space2.Temporal
open Base

def nanosPerSecond : Int := 1000000000
def nanosPerDay : Int := 86400000000000

def InRange (nanoseconds : Int) : Prop := -2 ^ 63 ≤ nanoseconds ∧ nanoseconds < 2 ^ 63

instance (nanoseconds : Int) : Decidable (InRange nanoseconds) := by
  unfold InRange
  infer_instance

structure CivilFields where
  year : Int
  month : Int
  day : Int
  hour : Int
  minute : Int
  second : Int
  nanosecond : Int
  deriving DecidableEq, Repr

structure PlainDateTime where
  nanoseconds : Int
  inRange : InRange nanoseconds
  deriving DecidableEq

structure Instant where
  nanoseconds : Int
  inRange : InRange nanoseconds
  deriving DecidableEq

def overflow : String := "temporal duration arithmetic overflow"
def outsideLocalRange : String := "temporal local date-time outside nanosecond range"
def outsideInstantRange : String := "temporal instant outside nanosecond range"

/-- A result of 64-bit arithmetic, refused when it does not fit. -/
def checked (n : Int) (message : String) : Except String { n : Int // InRange n } :=
  if h : InRange n then pure ⟨n, h⟩ else throw message

section Fields

def timeFields (time : Int) : Int × Int × Int × Int :=
  let seconds := time / nanosPerSecond
  (seconds / 3600, seconds / 60 % 60, seconds % 60, time % nanosPerSecond)

def timeNanoseconds (hour minute second nanosecond : Int) : Int :=
  (hour * 3600 + minute * 60 + second) * nanosPerSecond + nanosecond

def fieldsFromLocal (nanoseconds : Int) : CivilFields :=
  let date := Date.ofDayNumber (nanoseconds / nanosPerDay)
  let (hour, minute, second, nanosecond) := timeFields (nanoseconds % nanosPerDay)
  ⟨date.year, date.month, date.day, hour, minute, second, nanosecond⟩

def validateTimeFields (hour minute second nanosecond : Int) : Except String Unit :=
  ensure ((0 ≤ hour ∧ hour ≤ 23) ∧ (0 ≤ minute ∧ minute ≤ 59) ∧ (0 ≤ second ∧ second ≤ 59) ∧
    0 ≤ nanosecond ∧ nanosecond < nanosPerSecond) "invalid temporal time fields"

/-- A month or a day as it is stored, in a byte. -/
def byte (n : Int) : Int := n % 256

def validateDateFields (year month day : Int) : Except String Date := do
  ensure (-32767 ≤ year ∧ year ≤ 32767 ∧ Date.Valid ⟨year, byte month, byte day⟩)
    "invalid temporal date fields"
  pure ⟨year, byte month, byte day⟩

/-- The day and the nanoseconds within it. -/
def nanosFromFields (fields : CivilFields) : Except String (Int × Int) := do
  let date ← validateDateFields fields.year fields.month fields.day
  validateTimeFields fields.hour fields.minute fields.second fields.nanosecond
  pure (date.dayNumber,
    timeNanoseconds fields.hour fields.minute fields.second fields.nanosecond)

def compareInt64 (left right : Int) : Int :=
  if left < right then -1 else if left > right then 1 else 0

theorem compareInt64_neg {left right : Int} : compareInt64 left right < 0 ↔ left < right := by
  unfold compareInt64
  split_ifs <;> omega

theorem compareInt64_pos {left right : Int} : 0 < compareInt64 left right ↔ right < left := by
  unfold compareInt64
  split_ifs <;> omega

theorem compareInt64_eq_zero {left right : Int} : compareInt64 left right = 0 ↔ left = right := by
  unfold compareInt64
  split_ifs with hless hmore
  · exact iff_of_false (by decide) (by omega)
  · exact iff_of_false (by decide) (by omega)
  · exact iff_of_true rfl (by omega)

end Fields

section Formatting

def padded (width : Nat) (n : Int) : Text :=
  List.replicate (width - (digits n.toNat).length) '0' ++ digits n.toNat

def formatFraction (nanosecond : Int) : Text :=
  if nanosecond = 0 then []
  else '.' :: ((padded 9 nanosecond).reverse.dropWhile (· == '0')).reverse

def formatCivil (fields : CivilFields) : Text :=
  padded 4 fields.year ++ '-' :: (padded 2 fields.month ++ '-' :: (padded 2 fields.day ++ 'T' ::
    (padded 2 fields.hour ++ ':' :: (padded 2 fields.minute ++ ':' :: (padded 2 fields.second ++
      formatFraction fields.nanosecond)))))

theorem ofDigitChars_padded (width : Nat) {n : Int} (h : 0 ≤ n) :
    (Nat.ofDigitChars 10 (padded width n) 0 : Int) = n := by
  unfold padded digits
  rw [Nat.ofDigitChars_append, Nat.ofDigitChars_replicate_zero, Nat.mul_zero,
    Nat.ofDigitChars_ten_toDigits]
  omega

theorem padded_length {width : Nat} (hwidth : 0 < width) {n : Int} (h : n < 10 ^ width) :
    (padded width n).length = width := by
  have hpos : (0 : Int) < 10 ^ width := by positivity
  have hdigits : (digits n.toNat).length ≤ width :=
    Nat.toDigits_length 10 n.toNat width hwidth (by zify; omega)
  unfold padded
  rw [List.length_append, List.length_replicate]
  omega

theorem padded_injective {width : Nat} {n m : Int} (hn : 0 ≤ n) (hm : 0 ≤ m)
    (h : padded width n = padded width m) : n = m := by
  rw [← ofDigitChars_padded width hn, h, ofDigitChars_padded width hm]

/-- The zeros cut from the end of a text are its last places. -/
theorem trimmed_append (u : Text) :
    (u.reverse.dropWhile (· == '0')).reverse ++
      List.replicate (u.length - (u.reverse.dropWhile (· == '0')).reverse.length) '0' = u := by
  have hzeros : ∀ c ∈ u.reverse.takeWhile (· == '0'), c = '0' := fun c hc => by
    simpa using List.mem_takeWhile_imp hc
  have hcut := List.takeWhile_append_dropWhile (p := (· == '0')) (l := u.reverse)
  have hcount : (u.reverse.takeWhile (· == '0')).length =
      u.length - (u.reverse.dropWhile (· == '0')).reverse.length := by
    have := congrArg List.length hcut
    rw [List.length_append, List.length_reverse] at this
    rw [List.length_reverse]
    omega
  apply List.reverse_injective
  rw [List.reverse_append, List.reverse_reverse, List.reverse_replicate, ← hcount,
    ← List.eq_replicate_of_mem hzeros, hcut]

/-- Of texts of one length, the one cut back to its last digit other than zero can be restored. -/
theorem trimmed_injective {s t : Text} (hlength : s.length = t.length)
    (h : (s.reverse.dropWhile (· == '0')).reverse = (t.reverse.dropWhile (· == '0')).reverse) :
    s = t := by
  rw [← trimmed_append s, ← trimmed_append t, h, hlength]

theorem formatFraction_injective {n m : Int} (hn : 0 ≤ n ∧ n < nanosPerSecond)
    (hm : 0 ≤ m ∧ m < nanosPerSecond) (h : formatFraction n = formatFraction m) : n = m := by
  unfold nanosPerSecond at hn hm
  unfold formatFraction at h
  split_ifs at h with hzero hzero' hzero'
  · exact hzero.trans hzero'.symm
  · have htrimmed := trimmed_injective (by
      rw [padded_length (by decide) (by omega), padded_length (by decide) (by omega)])
      (List.tail_eq_of_cons_eq h)
    exact padded_injective hn.1 hm.1 htrimmed

/-- The fields that fill their places in a text. -/
structure CivilFields.Fits (fields : CivilFields) : Prop where
  year : 0 ≤ fields.year ∧ fields.year < 10000
  month : 0 ≤ fields.month ∧ fields.month < 100
  day : 0 ≤ fields.day ∧ fields.day < 100
  hour : 0 ≤ fields.hour ∧ fields.hour < 100
  minute : 0 ≤ fields.minute ∧ fields.minute < 100
  second : 0 ≤ fields.second ∧ fields.second < 100
  nanosecond : 0 ≤ fields.nanosecond ∧ fields.nanosecond < nanosPerSecond

/-- Two texts that begin with a number of one width agree in the number and in the rest. -/
theorem padded_append {width : Nat} (hwidth : 0 < width) {n m : Int}
    (hn : 0 ≤ n ∧ n < 10 ^ width) (hm : 0 ≤ m ∧ m < 10 ^ width) {s t : Text}
    (h : padded width n ++ s = padded width m ++ t) : n = m ∧ s = t := by
  obtain ⟨hnumber, hrest⟩ := List.append_inj h
    (by rw [padded_length hwidth hn.2, padded_length hwidth hm.2])
  exact ⟨padded_injective hn.1 hm.1 hnumber, hrest⟩

theorem formatCivil_injective {f g : CivilFields} (hf : f.Fits) (hg : g.Fits)
    (h : formatCivil f = formatCivil g) : f = g := by
  obtain ⟨hyear, h⟩ := padded_append (by decide) hf.year hg.year h
  obtain ⟨hmonth, h⟩ := padded_append (by decide) hf.month hg.month (List.tail_eq_of_cons_eq h)
  obtain ⟨hday, h⟩ := padded_append (by decide) hf.day hg.day (List.tail_eq_of_cons_eq h)
  obtain ⟨hhour, h⟩ := padded_append (by decide) hf.hour hg.hour (List.tail_eq_of_cons_eq h)
  obtain ⟨hminute, h⟩ := padded_append (by decide) hf.minute hg.minute (List.tail_eq_of_cons_eq h)
  obtain ⟨hsecond, h⟩ := padded_append (by decide) hf.second hg.second (List.tail_eq_of_cons_eq h)
  have hnanosecond := formatFraction_injective hf.nanosecond hg.nanosecond h
  cases f
  cases g
  simp only at hyear hmonth hday hhour hminute hsecond hnanosecond
  rw [hyear, hmonth, hday, hhour, hminute, hsecond, hnanosecond]

end Formatting

section FieldsOf

theorem timeFields_time (time : Int) :
    timeNanoseconds (timeFields time).1 (timeFields time).2.1 (timeFields time).2.2.1
      (timeFields time).2.2.2 = time := by
  unfold timeNanoseconds timeFields nanosPerSecond
  dsimp only
  omega

theorem timeFields_timeNanoseconds {hour minute second nanosecond : Int}
    (hminute : 0 ≤ minute ∧ minute ≤ 59) (hsecond : 0 ≤ second ∧ second ≤ 59)
    (hnanosecond : 0 ≤ nanosecond ∧ nanosecond < nanosPerSecond) :
    timeFields (timeNanoseconds hour minute second nanosecond) =
      (hour, minute, second, nanosecond) := by
  unfold nanosPerSecond at hnanosecond
  unfold timeNanoseconds timeFields nanosPerSecond
  simp only [Prod.mk.injEq]
  exact ⟨by omega, by omega, by omega, by omega⟩

/-- The count of nanoseconds is read back from the fields. -/
theorem nanoseconds_of_fields (n : Int) :
    (Date.mk (fieldsFromLocal n).year (fieldsFromLocal n).month (fieldsFromLocal n).day).dayNumber *
        nanosPerDay + timeNanoseconds (fieldsFromLocal n).hour (fieldsFromLocal n).minute
          (fieldsFromLocal n).second (fieldsFromLocal n).nanosecond = n := by
  have hday : Date.mk (fieldsFromLocal n).year (fieldsFromLocal n).month (fieldsFromLocal n).day =
      Date.ofDayNumber (n / nanosPerDay) := rfl
  have htime := timeFields_time (n % nanosPerDay)
  have htime' : timeNanoseconds (fieldsFromLocal n).hour (fieldsFromLocal n).minute
      (fieldsFromLocal n).second (fieldsFromLocal n).nanosecond = n % nanosPerDay := htime
  rw [hday, Date.dayNumber_ofDayNumber, htime']
  unfold nanosPerDay
  omega

theorem fieldsFromLocal_injective {n m : Int} (h : fieldsFromLocal n = fieldsFromLocal m) :
    n = m := by
  rw [← nanoseconds_of_fields n, h, nanoseconds_of_fields m]

theorem fields_fit {n : Int} (h : InRange n) : (fieldsFromLocal n).Fits := by
  obtain ⟨hlow, hhigh⟩ := h
  have hvalid := Date.valid_ofDayNumber (n / nanosPerDay)
  have hday : 1 ≤ (Date.ofDayNumber (n / nanosPerDay)).day ∧
      (Date.ofDayNumber (n / nanosPerDay)).day ≤ 31 := by
    have hstep := @daysBeforeMonth_step ((Date.ofDayNumber (n / nanosPerDay)).year) _
      hvalid.month.1 hvalid.month.2
    have hlast := hvalid.day.2
    unfold daysInMonth at hlast
    exact ⟨hvalid.day.1, by omega⟩
  refine ⟨?_, ?_, ?_, ?_, ?_, ?_, ?_⟩
  · obtain ⟨hstart, hend⟩ := yearOfDay_spec (n / nanosPerDay + 719162)
    unfold nanosPerDay daysBeforeYear at hstart hend
    show 0 ≤ yearOfDay (n / nanosPerDay + 719162) ∧ yearOfDay (n / nanosPerDay + 719162) < 10000
    unfold nanosPerDay
    omega
  · exact ⟨le_trans (by decide) hvalid.month.1, lt_of_le_of_lt hvalid.month.2 (by decide)⟩
  · exact ⟨le_trans (by decide) hday.1, lt_of_le_of_lt hday.2 (by decide)⟩
  all_goals
    simp only [fieldsFromLocal, timeFields, nanosPerSecond, nanosPerDay]
    omega

end FieldsOf

namespace PlainDateTime

def compare (p q : PlainDateTime) : Int := compareInt64 p.nanoseconds q.nanoseconds

def fields (p : PlainDateTime) : CivilFields := fieldsFromLocal p.nanoseconds

def toText (p : PlainDateTime) : Text := formatCivil p.fields

theorem nanoseconds_injective {p q : PlainDateTime} (h : p.nanoseconds = q.nanoseconds) :
    p = q := by
  cases p
  cases q
  simpa only [PlainDateTime.mk.injEq] using h

/-- Two date-times with one text are the same. -/
theorem toText_injective : Function.Injective toText := by
  intro p q h
  have hfields := formatCivil_injective (fields_fit p.inRange) (fields_fit q.inRange) h
  exact nanoseconds_injective (fieldsFromLocal_injective hfields)

def dayNumber (p : PlainDateTime) : Int := p.nanoseconds / nanosPerDay

def timeOfDay (p : PlainDateTime) : Int := p.nanoseconds % nanosPerDay

def fromDayTime (day time : Int) : Except String PlainDateTime := do
  let n ← checked (day * nanosPerDay + time) outsideLocalRange
  pure ⟨n.1, n.2⟩

def fromFields (fields : CivilFields) : Except String PlainDateTime := do
  let (day, time) ← nanosFromFields fields
  fromDayTime day time

def addDays (p : PlainDateTime) (days : Int) : Except String PlainDateTime :=
  fromDayTime (p.dayNumber + days) p.timeOfDay

def add (p : PlainDateTime) (duration : Int) : Except String PlainDateTime := do
  let n ← checked (p.nanoseconds + duration) overflow
  pure ⟨n.1, n.2⟩

/-- The date moved by months; a day its month does not have becomes the last of the month. -/
def addCalendarMonths (fields : CivilFields) (months : Int) : Except String Date := do
  let target := fields.year * 12 + (fields.month - 1) + months
  let year := target / 12
  let month := target % 12 + 1
  ensure (-32767 ≤ year ∧ year ≤ 32767) "temporal calendar arithmetic overflow"
  pure ⟨year, month, min fields.day (daysInMonth year month)⟩

/-- A period of years and months. -/
def addCalendar (p : PlainDateTime) (years months : Int) : Except String PlainDateTime := do
  let date ← addCalendarMonths p.fields (years * 12 + months)
  fromDayTime date.dayNumber p.timeOfDay

def isoWeekday (p : PlainDateTime) : Int := Date.isoWeekday p.dayNumber

end PlainDateTime

namespace Instant

def compare (i j : Instant) : Int := compareInt64 i.nanoseconds j.nanoseconds

def toText (i : Instant) : Text := formatCivil (fieldsFromLocal i.nanoseconds) ++ ['Z']

end Instant

section Parsing

/-- `dddd-dd-ddTdd:dd:dd` and what follows it. -/
def splitDateTime : Text → Option (List Text × Text)
  | y₁ :: y₂ :: y₃ :: y₄ :: '-' :: o₁ :: o₂ :: '-' :: d₁ :: d₂ :: 'T' :: h₁ :: h₂ :: ':' ::
      m₁ :: m₂ :: ':' :: s₁ :: s₂ :: rest =>
    let parts := [[y₁, y₂, y₃, y₄], [o₁, o₂], [d₁, d₂], [h₁, h₂], [m₁, m₂], [s₁, s₂]]
    if parts.all isDigits then some (parts, rest) else none
  | _ => none

/-- `(?:\.([0-9]{1,9}))?`, the fraction in nanoseconds, and what follows it. -/
def splitFraction (text : Text) : Option (Int × Text) :=
  match text with
  | '.' :: rest =>
    let fraction := rest.takeWhile Char.isDigit
    if fraction.length = 0 ∨ 9 < fraction.length then none
    else some (Nat.ofDigitChars 10 (fraction ++ List.replicate (9 - fraction.length) '0') 0,
      rest.drop fraction.length)
  | rest => some (0, rest)

def parsedFields : List Text → Int → CivilFields
  | [year, month, day, hour, minute, second], nanosecond =>
    let number (text : Text) : Int := Nat.ofDigitChars 10 text 0
    ⟨number year, number month, number day, number hour, number minute, number second, nanosecond⟩
  | _, nanosecond => ⟨0, 0, 0, 0, 0, 0, nanosecond⟩

/-- The fields of a text and what follows them. -/
def parseCivil (text : Text) (message : String) : Except String (CivilFields × Text) := do
  match splitDateTime text with
  | none => throw message
  | some (parts, rest) =>
    match splitFraction rest with
    | none => throw message
    | some (nanosecond, rest) => pure (parsedFields parts nanosecond, rest)

def PlainDateTime.parse (text : Text) : Except String PlainDateTime := do
  let (fields, rest) ← parseCivil text "invalid temporal plain date-time"
  ensure (rest = []) "invalid temporal plain date-time"
  ensure (fields.second ≠ 60) "leap seconds are not supported"
  PlainDateTime.fromFields fields

/-- `Z` or the sign, the hours and the minutes of an offset from UTC. -/
def splitOffset : Text → Option (Int × Int × Int)
  | ['Z'] => some (1, 0, 0)
  | [sign, h₁, h₂, ':', m₁, m₂] =>
    if (sign = '+' ∨ sign = '-') ∧ isDigits [h₁, h₂] ∧ isDigits [m₁, m₂] then
      some (if sign = '-' then -1 else 1, Nat.ofDigitChars 10 [h₁, h₂] 0,
        Nat.ofDigitChars 10 [m₁, m₂] 0)
    else none
  | _ => none

def Instant.parse (text : Text) : Except String Instant := do
  let (fields, rest) ← parseCivil text "invalid temporal instant"
  match splitOffset rest with
  | none => throw "invalid temporal instant"
  | some (sign, hours, minutes) =>
    ensure (fields.second ≠ 60) "leap seconds are not supported"
    let (day, time) ← nanosFromFields fields
    ensure (hours ≤ 23 ∧ minutes ≤ 59) "invalid temporal instant offset"
    let offset := sign * ((hours * 60 + minutes) * 60)
    let n ← checked (day * nanosPerDay + time - offset * nanosPerSecond) outsideInstantRange
    pure ⟨n.1, n.2⟩

end Parsing

end Space2.Temporal
