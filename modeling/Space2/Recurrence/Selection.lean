import Space2.Recurrence.Loops

/-!
# What a rule selects

The buckets of a rule are the periods of its frequency, an interval apart from that of the start.
Of a bucket the rule selects the date-times whose date and time pass its selectors, and of these
the ones at the positions of BYSETPOS. A part of the date or time that no selector speaks about is
that of the start.
-/
namespace Space2.Recurrence
open Base Temporal

section Dates

variable (rule : Rule) (dtstart : PlainDateTime) (d : Date)

/-- No selector says which days of a month or a year are meant. -/
def defaultsDay : Bool :=
  calendarFrequency rule && rule.byMonthDay.isNone && rule.byDay.isNone && rule.byYearDay.isNone &&
    rule.byWeekNo.isNone

/-- A yearly rule with no more than plain weekdays keeps to the month of the start. -/
def defaultsMonth : Bool :=
  rule.freq == .yearly && (defaultsDay rule || !needsCandidateSelectorEngine rule)

def MonthSelected : Prop :=
  match rule.byMonth with
  | some months => d.month ∈ integers months
  | none => defaultsMonth rule = true → d.month = dtstart.date.month

def MonthDaySelected : Prop :=
  ∀ days, rule.byMonthDay = some days →
    ∃ value ∈ integers days, d.day = resolved (daysInMonth d.year d.month) value

def YearDaySelected : Prop :=
  ∀ days, rule.byYearDay = some days →
    ∃ value ∈ integers days, d.dayOfYear = resolved (daysInYear d.year) value

/-- The first day of the week that holds most of the first days of a year. -/
def weekOne (weekStart : Day) (year : Int) : Int :=
  let jan1 := Date.dayNumber ⟨year, 1, 1⟩
  let offset := weekdayOffsetFromWeekStart (Date.isoWeekday jan1) weekStart
  jan1 - offset + if offset > 3 then 7 else 0

def weeksOfYear (weekStart : Day) (year : Int) : Int :=
  (weekOne weekStart (year + 1) - weekOne weekStart year) / 7

def weekNumberOf (weekStart : Day) : Int :=
  if d.dayNumber < weekOne weekStart d.year then weeksOfYear weekStart (d.year - 1)
  else if weekOne weekStart (d.year + 1) ≤ d.dayNumber then 1
  else (d.dayNumber - weekOne weekStart d.year) / 7 + 1

def WeekNoSelected : Prop :=
  ∀ weeks, rule.byWeekNo = some weeks → ∃ value ∈ integers weeks,
    weekNumberOf d rule.weekStart = resolved (weeksOfYear rule.weekStart d.year) value

/-- The `n`-th of the days of one weekday, at `position` of `count` days; from the end when `n` is
negative. -/
def IsNth (position count n : Int) : Prop :=
  if n > 0 then (position - 1) / 7 + 1 = n else -((count - position) / 7 + 1) = n

def EntrySelected (yearly : Bool) : ByDay → Prop
  | .every day => Date.isoWeekday d.dayNumber = day.toNumber
  | .nth day n => Date.isoWeekday d.dayNumber = day.toNumber ∧
      if yearly then IsNth d.dayOfYear (daysInYear d.year) (toInteger n)
      else IsNth d.day (daysInMonth d.year d.month) (toInteger n)

/-- Ordinals count within the year when no month is selected. -/
def countsInYear : Bool := rule.freq == .yearly && rule.byMonth.isNone

def WeekdaySelected : Prop :=
  match rule.byDay with
  | some entries => ∃ entry ∈ entries, EntrySelected d (countsInYear rule) entry
  | none => rule.freq = .weekly → Date.isoWeekday d.dayNumber = dtstart.isoWeekday

/-- The day of the start, or the last day when the month has fewer. -/
def DaySelected : Prop :=
  defaultsDay rule = true → d.day = min dtstart.date.day
    (daysInMonth d.year (if rule.freq = .yearly then dtstart.date.month else d.month))

structure DateSelected : Prop where
  month : MonthSelected rule dtstart d
  monthDay : MonthDaySelected rule d
  yearDay : YearDaySelected rule d
  weekNo : WeekNoSelected rule d
  day : DaySelected rule dtstart d
  weekday : WeekdaySelected rule dtstart d

end Dates

section Times

variable (rule : Rule) (dtstart x : PlainDateTime)

/-- A part of the time: one of the selected, or else the default. -/
def UnitSelected (items : Option (List Number)) (defaults : Bool) (start value : Int) : Prop :=
  match items with
  | some items => value ∈ integers items
  | none => defaults = true → value = start

/-- The parts shorter than the period of the frequency default to those of the start. -/
structure TimeSelected : Prop where
  hour : UnitSelected rule.byHour (!needsDuration rule) dtstart.fields.hour x.fields.hour
  minute : UnitSelected rule.byMinute (!needsDuration rule || rule.freq == .hourly)
    dtstart.fields.minute x.fields.minute
  second : UnitSelected rule.bySecond (rule.freq != .secondly)
    dtstart.fields.second x.fields.second
  nanosecond : x.fields.nanosecond = dtstart.fields.nanosecond

end Times

section Buckets

variable (rule : Rule) (dtstart : PlainDateTime)

/-- The number of the period of the rule's frequency that holds a date-time. -/
def periodOf (x : PlainDateTime) : Int :=
  match rule.freq with
  | .secondly => x.nanoseconds / nanosPerSecond
  | .minutely => x.nanoseconds / (nanosPerSecond * 60)
  | .hourly => x.nanoseconds / (nanosPerSecond * 3600)
  | .daily => x.dayNumber
  | .weekly => (x.dayNumber + 3 - (rule.weekStart.toNumber - 1)) / 7
  | .monthly => x.date.year * 12 + (x.date.month - 1)
  | .yearly => x.date.year

/-- The candidates of the `k`-th bucket. -/
def candidateSet (k : Nat) : Set PlainDateTime :=
  {x | periodOf rule x = periodOf rule dtstart + k * rule.intervalInteger ∧
    DateSelected rule dtstart x.date ∧ TimeSelected rule dtstart x}

/-- At a position of BYSETPOS among the members of a set, in ascending order. -/
def AtPosition (S : Set PlainDateTime) (position : Int) (x : PlainDateTime) : Prop :=
  ∃ l : List PlainDateTime, l.Pairwise (· < ·) ∧ (∀ y, y ∈ l ↔ y ∈ S) ∧
    1 ≤ positionIndex l.length position ∧
      l[(positionIndex l.length position).toNat - 1]? = some x

def positioned (S : Set PlainDateTime) : Set PlainDateTime :=
  match rule.bySetPos with
  | none => S
  | some positions => {x | ∃ position ∈ integers positions, AtPosition S position x}

def bucketSet (k : Nat) : Set PlainDateTime := positioned rule (candidateSet rule dtstart k)

theorem positioned_subset (S : Set PlainDateTime) : positioned rule S ⊆ S := by
  unfold positioned
  split
  · exact Set.Subset.refl S
  · rintro x ⟨position, -, l, -, hmem, -, hx⟩
    exact (hmem x).mp (List.mem_of_getElem? hx)

theorem mem_bucketSet_period {rule : Rule} {dtstart x : PlainDateTime} {k : Nat}
    (h : x ∈ bucketSet rule dtstart k) :
    periodOf rule x = periodOf rule dtstart + k * rule.intervalInteger :=
  (positioned_subset rule _ h).1

/-- Later periods hold later date-times. -/
theorem lt_of_period (rule : Rule) {x y : PlainDateTime} (h : periodOf rule x < periodOf rule y) :
    x < y := by
  by_contra hle
  have hday := PlainDateTime.day_le_of_le (not_lt.mp hle)
  have hnanos := PlainDateTime.le_iff.mp (not_lt.mp hle)
  unfold periodOf nanosPerSecond at h
  split at h
  · omega
  · omega
  · omega
  · omega
  · omega
  · have hyear := Date.year_le hday
    have hmonths := x.date_valid.month
    have hmonths' := y.date_valid.month
    rcases Int.lt_or_eq_of_le hyear with hlt | heq
    · change y.date.year < x.date.year at hlt
      omega
    · have hmonth := Date.month_le hday heq
      change y.date.year = x.date.year at heq
      change y.date.month ≤ x.date.month at hmonth
      omega
  · have hyear := Date.year_le hday
    change y.date.year ≤ x.date.year at hyear
    omega

end Buckets

end Space2.Recurrence
