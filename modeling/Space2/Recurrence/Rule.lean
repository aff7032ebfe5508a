import Space2.Base.Checks
import Space2.Base.LuaText

/-!
# Recurrence rules

`from` reads a rule out of an options table: it refuses unknown options, checks
each value it finds and fills in an interval of one and a week that starts on
Monday. A number may be an integer or a double; both pass the same checks.
-/
namespace Space2.Recurrence
open Base

inductive Freq
  | secondly | minutely | hourly | daily | weekly | monthly | yearly
  deriving DecidableEq, Repr

inductive Day
  | mo | tu | we | th | fr | sa | su
  deriving DecidableEq, Repr

inductive OptionKey
  | freq | interval | count | untilText | bySecond | byMinute | byHour | byDay | byMonth
  | byMonthDay | byYearDay | byWeekNo | bySetPos | weekStart
  deriving DecidableEq, Repr

namespace Freq

def all : List Freq := [secondly, minutely, hourly, daily, weekly, monthly, yearly]

def name : Freq → String
  | secondly => "secondly"
  | minutely => "minutely"
  | hourly => "hourly"
  | daily => "daily"
  | weekly => "weekly"
  | monthly => "monthly"
  | yearly => "yearly"

end Freq

namespace Day

def all : List Day := [mo, tu, we, th, fr, sa, su]

def name : Day → String
  | mo => "mo"
  | tu => "tu"
  | we => "we"
  | th => "th"
  | fr => "fr"
  | sa => "sa"
  | su => "su"

end Day

/-- A Lua value as an option may hold it. -/
inductive Value
  | number (n : Number)
  | string (text : Text)
  | table (items : List Value) (fields : List (String × Value))
  | other

def Value.field (name : String) : Value → Option Value
  | .table _ fields => fields.lookup name
  | _ => none

structure Options where
  value : OptionKey → Option Value
  unknown : List String

/-- A weekday of BYDAY, or the ordinal-th of its kind. -/
inductive ByDay
  | every (weekday : Day)
  | nth (weekday : Day) (ordinal : Number)
  deriving DecidableEq

structure Rule where
  freq : Freq
  interval : Number
  weekStart : Day
  count : Option Number
  untilText : Option Text
  bySecond : Option (List Number)
  byMinute : Option (List Number)
  byHour : Option (List Number)
  byDay : Option (List ByDay)
  byMonth : Option (List Number)
  byMonthDay : Option (List Number)
  byYearDay : Option (List Number)
  byWeekNo : Option (List Number)
  bySetPos : Option (List Number)
  deriving DecidableEq

section Validators

def invalid (name : String) : String := "invalid temporal recurrence " ++ name

def validatePositiveInteger (name : String) : Value → Except String Number
  | .number n => if n.isIntegral && n.isPositive then pure n else throw (invalid name)
  | _ => throw (invalid name)

def validateIntegerRange (name : String) (min max : Int) : Value → Except String Number
  | .number n => if n.isIntegral && n.isBetween min max then pure n else throw (invalid name)
  | _ => throw (invalid name)

def validateNonzeroIntegerRange (name : String) (min max : Int) : Value → Except String Number
  | .number n =>
    if n.isIntegral && !n.isZero && n.isBetween min max then pure n else throw (invalid name)
  | _ => throw (invalid name)

def validateDay (name : String) : Option Value → Except String Day
  | some (.string text) =>
    match Day.all.find? fun day => day.name.toList == text with
    | some day => pure day
    | none => throw (invalid name)
  | _ => throw (invalid name)

def validateWeekStart : Value → Except String Day := fun value => validateDay "WKST" (some value)

def validateByDayEntry (entry : Value) : Except String ByDay :=
  match entry with
  | .table _ _ => do
    let weekday ← validateDay "BYDAY" (entry.field "weekday")
    match entry.field "ordinal" with
    | some ordinal =>
      let ordinal ← validateNonzeroIntegerRange "BYDAY" (-53) 53 ordinal
      pure (.nth weekday ordinal)
    | none => throw (invalid "BYDAY")
  | entry => do pure (.every (← validateDay "BYDAY" (some entry)))

def validateMonth : Value → Except String Number := validateIntegerRange "BYMONTH" 1 12
def validateSecond : Value → Except String Number := validateIntegerRange "BYSECOND" 0 59
def validateMinute : Value → Except String Number := validateIntegerRange "BYMINUTE" 0 59
def validateHour : Value → Except String Number := validateIntegerRange "BYHOUR" 0 23
def validateMonthDay : Value → Except String Number :=
  validateNonzeroIntegerRange "BYMONTHDAY" (-31) 31
def validateYearDay : Value → Except String Number :=
  validateNonzeroIntegerRange "BYYEARDAY" (-366) 366
def validateWeekNo : Value → Except String Number :=
  validateNonzeroIntegerRange "BYWEEKNO" (-53) 53
def validateSetPos : Value → Except String Number :=
  validateNonzeroIntegerRange "BYSETPOS" (-366) 366

end Validators

section Normalize

/-- The list at an option, each item checked; an empty list is refused. -/
def normalizeList {α : Type} (name : String) (validator : Value → Except String α) :
    Option Value → Except String (Option (List α))
  | none => pure none
  | some (.table items _) => do
    let normalized ← items.mapM validator
    if normalized.isEmpty then throw (invalid name) else pure (some normalized)
  | some _ => throw (invalid name)

def normalizeByDay : Option Value → Except String (Option (List ByDay)) :=
  normalizeList "BYDAY" validateByDayEntry

def normalizeByMonth : Option Value → Except String (Option (List Number)) :=
  normalizeList "BYMONTH" validateMonth

def normalizeByMonthDay : Option Value → Except String (Option (List Number)) :=
  normalizeList "BYMONTHDAY" validateMonthDay

def normalizeFreq : Option Value → Except String Freq
  | some (.string text) =>
    match Freq.all.find? fun freq => freq.name.toList == text with
    | some freq => pure freq
    | none => throw (invalid "frequency")
  | _ => throw (invalid "frequency")

def normalizeInterval : Option Value → Except String Number
  | none => pure (.integer 1)
  | some value => validatePositiveInteger "interval" value

def normalizeWeekStart : Option Value → Except String Day
  | none => pure .mo
  | some value => validateWeekStart value

def normalizeCount : Option Value → Except String (Option Number)
  | none => pure none
  | some value => some <$> validatePositiveInteger "count" value

def normalizeUntil : Option Value → Except String (Option Text)
  | none => pure none
  | some (.string text) => pure (some text)
  | some _ => throw (invalid "UNTIL")

def fromOptions (options : Options) : Except String Rule := do
  match options.unknown with
  | key :: _ => throw ("unknown temporal recurrence option: " ++ key)
  | [] => pure ()
  let freq ← normalizeFreq (options.value .freq)
  let interval ← normalizeInterval (options.value .interval)
  let weekStart ← normalizeWeekStart (options.value .weekStart)
  let count ← normalizeCount (options.value .count)
  let untilText ← normalizeUntil (options.value .untilText)
  let bySecond ← normalizeList "BYSECOND" validateSecond (options.value .bySecond)
  let byMinute ← normalizeList "BYMINUTE" validateMinute (options.value .byMinute)
  let byHour ← normalizeList "BYHOUR" validateHour (options.value .byHour)
  let byDay ← normalizeByDay (options.value .byDay)
  let byMonth ← normalizeByMonth (options.value .byMonth)
  let byMonthDay ← normalizeByMonthDay (options.value .byMonthDay)
  let byYearDay ← normalizeList "BYYEARDAY" validateYearDay (options.value .byYearDay)
  let byWeekNo ← normalizeList "BYWEEKNO" validateWeekNo (options.value .byWeekNo)
  let bySetPos ← normalizeList "BYSETPOS" validateSetPos (options.value .bySetPos)
  pure { freq, interval, weekStart, count, untilText, bySecond, byMinute, byHour, byDay, byMonth,
         byMonthDay, byYearDay, byWeekNo, bySetPos }

end Normalize

/-- Every field of the rule is read from its option. -/
structure Normalized (options : Options) (rule : Rule) : Prop where
  unknown : options.unknown = []
  freq : normalizeFreq (options.value .freq) = .ok rule.freq
  interval : normalizeInterval (options.value .interval) = .ok rule.interval
  weekStart : normalizeWeekStart (options.value .weekStart) = .ok rule.weekStart
  count : normalizeCount (options.value .count) = .ok rule.count
  untilText : normalizeUntil (options.value .untilText) = .ok rule.untilText
  bySecond : normalizeList "BYSECOND" validateSecond (options.value .bySecond) = .ok rule.bySecond
  byMinute : normalizeList "BYMINUTE" validateMinute (options.value .byMinute) = .ok rule.byMinute
  byHour : normalizeList "BYHOUR" validateHour (options.value .byHour) = .ok rule.byHour
  byDay : normalizeByDay (options.value .byDay) = .ok rule.byDay
  byMonth : normalizeByMonth (options.value .byMonth) = .ok rule.byMonth
  byMonthDay : normalizeByMonthDay (options.value .byMonthDay) = .ok rule.byMonthDay
  byYearDay : normalizeList "BYYEARDAY" validateYearDay (options.value .byYearDay) =
    .ok rule.byYearDay
  byWeekNo : normalizeList "BYWEEKNO" validateWeekNo (options.value .byWeekNo) = .ok rule.byWeekNo
  bySetPos : normalizeList "BYSETPOS" validateSetPos (options.value .bySetPos) = .ok rule.bySetPos

theorem fromOptions_eq_ok {options : Options} {rule : Rule} :
    fromOptions options = .ok rule ↔ Normalized options rule := by
  constructor
  · intro h
    unfold fromOptions at h
    split at h
    · cases h
    · next hunknown =>
      simp only [bind_eq_ok, pure_eq_ok] at h
      obtain ⟨freq, hfreq, interval, hinterval, weekStart, hweekStart, count, hcount,
        untilText, huntil, bySecond, hbySecond, byMinute, hbyMinute, byHour, hbyHour, byDay,
        hbyDay, byMonth, hbyMonth, byMonthDay, hbyMonthDay, byYearDay, hbyYearDay, byWeekNo,
        hbyWeekNo, bySetPos, hbySetPos, rfl⟩ := h
      exact ⟨hunknown, hfreq, hinterval, hweekStart, hcount, huntil, hbySecond, hbyMinute,
        hbyHour, hbyDay, hbyMonth, hbyMonthDay, hbyYearDay, hbyWeekNo, hbySetPos⟩
  · intro h
    simp only [fromOptions, h.unknown, h.freq, h.interval, h.weekStart, h.count, h.untilText,
      h.bySecond, h.byMinute, h.byHour, h.byDay, h.byMonth, h.byMonthDay, h.byYearDay, h.byWeekNo,
      h.bySetPos, bind, Except.bind, pure, Except.pure]

end Space2.Recurrence
