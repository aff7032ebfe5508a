import Space2.Recurrence.Occurrences

/-!
# The paths agree

A rule of days, weeks or months has the same occurrences on the path that steps from its start and
through the selector engine, and a part that repeats what the start or the rule says already changes
nothing: the buckets are the same sets.
-/
namespace Space2.Recurrence
open Base Temporal

variable {rule other input input' : Rule} {dtstart x : PlainDateTime} {bounds : Bounds}
  {limit : Option Nat}

/-- Two expansions list the same, unless one of them is refused. -/
def Agree (rule other : Rule) (dtstart : PlainDateTime) (left right : Except String (List PlainDateTime)) :
    Prop :=
  (∃ listed, left = .ok listed ∧ right = .ok listed) ∨
    (∃ e, left = .error e ∧ Refused rule dtstart e) ∨
      ∃ e, right = .error e ∧ Refused other dtstart e

theorem agree_of_firsts {left right : Except String (List PlainDateTime)} {S : Set PlainDateTime}
    (hleft : ∀ listed, left = .ok listed → Firsts limit S listed)
    (hright : ∀ listed, right = .ok listed → Firsts limit S listed)
    (hrefused : Raises (Refused rule dtstart) left)
    (hrefused' : Raises (Refused other dtstart) right) : Agree rule other dtstart left right := by
  cases left with
  | error e => exact .inr (.inl ⟨e, rfl, hrefused e rfl⟩)
  | ok listed =>
    cases right with
    | error e => exact .inr (.inr ⟨e, rfl, hrefused' e rfl⟩)
    | ok listed' =>
      exact .inl ⟨listed, rfl, by rw [(hleft listed rfl).unique (hright listed' rfl)]⟩

section Redundant

/-- No selector of the rule counts weeks. -/
def NoWeeks (rule : Rule) : Prop :=
  rule.byWeekNo = none ∧ (rule.freq = .weekly → rule.byDay = none)

/-- The other rule adds the start of the week, or a part of the time that the start has anyway. -/
inductive Redundant (dtstart : PlainDateTime) (rule : Rule) : Rule → Prop
  | weekStart (day : Day) (h : NoWeeks rule) : Redundant dtstart rule { rule with weekStart := day }
  | hour (n : Number) (hduration : needsDuration rule = false) (hnone : rule.byHour = none)
      (h : toInteger n = dtstart.fields.hour) :
      Redundant dtstart rule { rule with byHour := some [n] }
  | minute (n : Number) (hduration : needsDuration rule = false) (hnone : rule.byMinute = none)
      (h : toInteger n = dtstart.fields.minute) :
      Redundant dtstart rule { rule with byMinute := some [n] }
  | second (n : Number) (hduration : needsDuration rule = false) (hnone : rule.bySecond = none)
      (h : toInteger n = dtstart.fields.second) :
      Redundant dtstart rule { rule with bySecond := some [n] }

/-- What the other rule keeps. -/
structure Keeps (rule other : Rule) : Prop where
  freq : other.freq = rule.freq
  interval : other.interval = rule.interval
  count : other.count = rule.count
  untilText : other.untilText = rule.untilText
  byDay : other.byDay = rule.byDay
  byMonth : other.byMonth = rule.byMonth
  byMonthDay : other.byMonthDay = rule.byMonthDay
  byYearDay : other.byYearDay = rule.byYearDay
  byWeekNo : other.byWeekNo = rule.byWeekNo
  bySetPos : other.bySetPos = rule.bySetPos
  weeks : other.weekStart = rule.weekStart ∨ NoWeeks rule

theorem Redundant.keeps (h : Redundant dtstart rule other) : Keeps rule other := by
  cases h with
  | weekStart day h => exact ⟨rfl, rfl, rfl, rfl, rfl, rfl, rfl, rfl, rfl, rfl, .inr h⟩
  | _ => exact ⟨rfl, rfl, rfl, rfl, rfl, rfl, rfl, rfl, rfl, rfl, .inl rfl⟩

/-- One selected part that is that of the start. -/
theorem unitSelected_own {n : Number} {start value : Int} (h : toInteger n = start) :
    UnitSelected (some [n]) true start value ↔ UnitSelected none true start value := by
  unfold UnitSelected integers
  simp [h]

theorem Redundant.timeSelected_iff (h : Redundant dtstart rule other) :
    TimeSelected other dtstart x ↔ TimeSelected rule dtstart x := by
  cases h with
  | weekStart day h =>
    exact ⟨fun ⟨hh, hm, hs, hn⟩ => ⟨hh, hm, hs, hn⟩, fun ⟨hh, hm, hs, hn⟩ => ⟨hh, hm, hs, hn⟩⟩
  | hour n hduration hnone h =>
    have hunit : UnitSelected (some [n]) (!needsDuration rule) dtstart.fields.hour x.fields.hour ↔
        UnitSelected rule.byHour (!needsDuration rule) dtstart.fields.hour x.fields.hour := by
      rw [hduration, hnone]
      exact unitSelected_own h
    exact ⟨fun ⟨hh, hm, hs, hn⟩ => ⟨hunit.mp hh, hm, hs, hn⟩,
      fun ⟨hh, hm, hs, hn⟩ => ⟨hunit.mpr hh, hm, hs, hn⟩⟩
  | minute n hduration hnone h =>
    have hunit : UnitSelected (some [n]) (!needsDuration rule || rule.freq == .hourly)
        dtstart.fields.minute x.fields.minute ↔
          UnitSelected rule.byMinute (!needsDuration rule || rule.freq == .hourly)
            dtstart.fields.minute x.fields.minute := by
      rw [hduration, hnone]
      exact unitSelected_own h
    exact ⟨fun ⟨hh, hm, hs, hn⟩ => ⟨hh, hunit.mp hm, hs, hn⟩,
      fun ⟨hh, hm, hs, hn⟩ => ⟨hh, hunit.mpr hm, hs, hn⟩⟩
  | second n hduration hnone h =>
    have hfreq : (rule.freq != .secondly) = true := by
      unfold needsDuration at hduration
      rw [Bool.or_eq_false_iff, Bool.or_eq_false_iff] at hduration
      rw [bne, hduration.1.1]
      rfl
    have hunit : UnitSelected (some [n]) (rule.freq != .secondly) dtstart.fields.second
        x.fields.second ↔ UnitSelected rule.bySecond (rule.freq != .secondly)
          dtstart.fields.second x.fields.second := by
      rw [hfreq, hnone]
      exact unitSelected_own h
    exact ⟨fun ⟨hh, hm, hs, hn⟩ => ⟨hh, hm, hunit.mp hs, hn⟩,
      fun ⟨hh, hm, hs, hn⟩ => ⟨hh, hm, hunit.mpr hs, hn⟩⟩

end Redundant

section Named

/-- A yearly rule names a month, days or the ordinal of a weekday. -/
def NamesDays (rule : Rule) : Prop :=
  rule.freq = .yearly → rule.byMonth.isSome ∨ rule.byMonthDay.isSome ∨ rule.byYearDay.isSome ∨
    rule.byWeekNo.isSome ∨ hasOrdinalByDay rule.byDay = true

theorem NamesDays.defaultsMonth (h : NamesDays rule) (hnone : rule.byMonth = none) :
    defaultsMonth rule = false := by
  unfold Recurrence.defaultsMonth
  by_cases hfreq : rule.freq = .yearly
  · rcases h hfreq with hmonth | hday | hyear | hweek | hordinal
    · rw [hnone] at hmonth
      cases hmonth
    · simp [defaultsDay, needsCandidateSelectorEngine, hday, Option.isNone_eq_false_iff.mpr hday]
    · simp [defaultsDay, needsCandidateSelectorEngine, hyear, Option.isNone_eq_false_iff.mpr hyear]
    · simp [defaultsDay, needsCandidateSelectorEngine, hweek, Option.isNone_eq_false_iff.mpr hweek]
    · have hsome : rule.byDay.isNone = false := by
        cases hdays : rule.byDay with
        | none =>
          rw [hdays] at hordinal
          cases hordinal
        | some days => rfl
      simp [defaultsDay, needsCandidateSelectorEngine, hordinal, hsome]
  · simp [hfreq]

theorem NamesDays.yearSpecified (h : NamesDays rule) : YearSpecified rule :=
  fun _ hnone => h.defaultsMonth hnone

theorem Keeps.namesDays (h : Keeps rule other) (hnamed : NamesDays rule) : NamesDays other := by
  unfold NamesDays
  rw [h.freq, h.byMonth, h.byMonthDay, h.byYearDay, h.byWeekNo, h.byDay]
  exact hnamed

theorem Keeps.dateSelected (h : Keeps rule other) (hnamed : NamesDays rule) {d : Date}
    (hd : DateSelected rule dtstart d) : DateSelected other dtstart d := by
  have hdefaults : defaultsDay other = defaultsDay rule := by
    unfold defaultsDay calendarFrequency
    rw [h.freq, h.byMonthDay, h.byDay, h.byYearDay, h.byWeekNo]
  refine ⟨?_, ?_, ?_, ?_, ?_, ?_⟩
  · have hmonth := hd.month
    unfold MonthSelected at hmonth ⊢
    rw [h.byMonth]
    cases hmonths : rule.byMonth with
    | some months =>
      rw [hmonths] at hmonth
      exact hmonth
    | none =>
      intro hdefault
      rw [(h.namesDays hnamed).defaultsMonth (h.byMonth.trans hmonths)] at hdefault
      cases hdefault
  · have hday := hd.monthDay
    unfold MonthDaySelected at hday ⊢
    rwa [h.byMonthDay]
  · have hday := hd.yearDay
    unfold YearDaySelected at hday ⊢
    rwa [h.byYearDay]
  · have hweek := hd.weekNo
    unfold WeekNoSelected at hweek ⊢
    rw [h.byWeekNo]
    rcases h.weeks with heq | hnone
    · rwa [heq]
    · intro weeks hweeks
      rw [hnone.1] at hweeks
      cases hweeks
  · have hday := hd.day
    unfold DaySelected at hday ⊢
    rwa [hdefaults, h.freq]
  · have hweekday := hd.weekday
    unfold WeekdaySelected countsInYear at hweekday ⊢
    rwa [h.byDay, h.freq, h.byMonth]

theorem Keeps.symm (h : Keeps rule other) : Keeps other rule := by
  refine ⟨h.freq.symm, h.interval.symm, h.count.symm, h.untilText.symm, h.byDay.symm,
    h.byMonth.symm, h.byMonthDay.symm, h.byYearDay.symm, h.byWeekNo.symm, h.bySetPos.symm, ?_⟩
  refine h.weeks.imp Eq.symm fun hnone => ?_
  unfold NoWeeks
  rw [h.byWeekNo, h.freq, h.byDay]
  exact hnone

/-- The date-times of the weekday of the start, so many weeks on, wherever weeks start. -/
theorem weekPeriod_iff (hfreq : rule.freq = .weekly) {n : Int} :
    periodOf rule x = periodOf rule dtstart + n ∧ x.isoWeekday = dtstart.isoWeekday ↔
      x.dayNumber = dtstart.dayNumber + n * 7 := by
  have := toNumber_bounds rule.weekStart
  unfold PlainDateTime.isoWeekday Date.isoWeekday
  simp only [periodOf, hfreq]
  omega

theorem Keeps.candidateSet_subset (h : Keeps rule other) (hnamed : NamesDays rule)
    (htime : ∀ x, TimeSelected other dtstart x ↔ TimeSelected rule dtstart x) (k : Nat) :
    candidateSet rule dtstart k ⊆ candidateSet other dtstart k := by
  rintro x ⟨hperiod, hdate, hx⟩
  refine ⟨?_, h.dateSelected hnamed hdate, (htime x).mpr hx⟩
  have hinterval : other.intervalInteger = rule.intervalInteger := by
    unfold Rule.intervalInteger
    rw [h.interval]
  rw [hinterval]
  by_cases hweekly : rule.freq = .weekly
  · rcases h.weeks with heq | hnone
    · unfold periodOf at hperiod ⊢
      rwa [h.freq, heq]
    · have hweekday := hdate.weekday
      unfold WeekdaySelected at hweekday
      rw [hnone.2 hweekly] at hweekday
      have hiso : x.isoWeekday = dtstart.isoWeekday := by
        have := hweekday hweekly
        rwa [PlainDateTime.dayNumber_date] at this
      have hday := (weekPeriod_iff hweekly).mp ⟨hperiod, hiso⟩
      exact ((weekPeriod_iff (h.freq.trans hweekly)).mpr hday).1
  · unfold periodOf at hperiod ⊢
    rw [h.freq]
    cases hfreq : rule.freq with
    | weekly => exact absurd hfreq hweekly
    | _ =>
      rw [hfreq] at hperiod
      exact hperiod

theorem Redundant.selectedSet_eq (h : Redundant dtstart rule other) (hnamed : NamesDays rule) :
    selectedSet other dtstart bounds = selectedSet rule dtstart bounds := by
  have hset : ∀ k, candidateSet other dtstart k = candidateSet rule dtstart k := fun k =>
    Set.Subset.antisymm
      (h.keeps.symm.candidateSet_subset (h.keeps.namesDays hnamed)
        (fun x => h.timeSelected_iff.symm) k)
      (h.keeps.candidateSet_subset hnamed (fun x => h.timeSelected_iff) k)
  have hbucket : bucketSet other dtstart = bucketSet rule dtstart := by
    funext k
    unfold bucketSet positioned
    rw [hset, h.keeps.bySetPos]
  unfold selectedSet
  rw [hbucket]

end Named

section Instances

def dailyAtNine : Rule := { each .daily with byHour := some [.integer 9] }

end Instances

end Space2.Recurrence
