import Space2.Recurrence.Expansion

/-!
# The plain paths

A rule with no selectors beyond months and plain weekdays is stepped from its start. The steps that
pass are the members of its buckets.
-/
namespace Space2.Recurrence
open Base Temporal

variable {rule : Rule} {dtstart x : PlainDateTime} {bounds : Bounds} {final : List PlainDateTime}

/-- What a rule lacks when it does not need the selector engine. -/
structure Plain (rule : Rule) : Prop where
  times : hasTimeSelectors rule = false
  yearDay : rule.byYearDay = none
  weekNo : rule.byWeekNo = none
  setPos : rule.bySetPos = none
  weekStart : rule.weekStart = .mo
  weekly : rule.freq = .weekly → rule.byDay = none
  ordinal : hasOrdinalByDay rule.byDay = false
  monthDay : rule.byMonthDay = none
  calendar : calendarFrequency rule = true → rule.byMonth = none

theorem plain_iff : needsCandidateSelectorEngine rule = false ↔ Plain rule := by
  simp only [needsCandidateSelectorEngine, Bool.or_eq_false_iff, Option.isSome_eq_false_iff,
    Option.isNone_iff_eq_none, bne_eq_false_iff_eq, Bool.and_eq_false_imp, beq_iff_eq]
  constructor
  · rintro ⟨⟨⟨⟨⟨⟨⟨⟨htimes, hyearDay⟩, hweekNo⟩, hsetPos⟩, hstart⟩, hweekly⟩, hordinal⟩, hmonthDay⟩,
      hcalendar⟩
    exact ⟨htimes, hyearDay, hweekNo, hsetPos, hstart, hweekly, hordinal, hmonthDay, hcalendar⟩
  · rintro ⟨htimes, hyearDay, hweekNo, hsetPos, hstart, hweekly, hordinal, hmonthDay, hcalendar⟩
    exact ⟨⟨⟨⟨⟨⟨⟨⟨htimes, hyearDay⟩, hweekNo⟩, hsetPos⟩, hstart⟩, hweekly⟩, hordinal⟩, hmonthDay⟩,
      hcalendar⟩

section Members

variable (hplain : Plain rule) (hduration : needsDuration rule = false)
include hplain hduration

theorem mem_bucketSet_plain {k : Nat} : x ∈ bucketSet rule dtstart k ↔
    periodOf rule x = periodOf rule dtstart + k * rule.intervalInteger ∧
      x.timeOfDay = dtstart.timeOfDay ∧ MonthSelected rule dtstart x.date ∧
        DaySelected rule dtstart x.date ∧ WeekdaySelected rule dtstart x.date := by
  unfold bucketSet positioned
  rw [hplain.setPos]
  show _ ∧ _ ∧ _ ↔ _
  rw [timeSelected_of_plain hduration hplain.times]
  constructor
  · rintro ⟨hperiod, hdate, htime⟩
    exact ⟨hperiod, htime, hdate.month, hdate.day, hdate.weekday⟩
  · rintro ⟨hperiod, htime, hmonth, hday, hweekday⟩
    refine ⟨hperiod, ⟨hmonth, ?_, ?_, ?_, hday, hweekday⟩, htime⟩
    · intro days hdays
      rw [hplain.monthDay] at hdays
      cases hdays
    · intro days hdays
      rw [hplain.yearDay] at hdays
      cases hdays
    · intro weeks hweeks
      rw [hplain.weekNo] at hweeks
      cases hweeks

omit hduration in
theorem calendarFilters_iff (hyearly : rule.byMonth = none → defaultsMonth rule = false) :
    candidateCalendarFiltersAllowed rule x = true ↔ MonthSelected rule dtstart x.date := by
  unfold candidateCalendarFiltersAllowed monthDayFilterAllowed
  rw [hplain.monthDay, Bool.and_true, monthFilterAllowed_iff hyearly]

omit hduration in
/-- Of plain weekdays one is selected. -/
theorem byDayAllowed_iff {days : List ByDay} (hdays : rule.byDay = some days) :
    byDayAllowed days x.isoWeekday = true ↔ WeekdaySelected rule dtstart x.date := by
  have hordinal := hplain.ordinal
  rw [hdays] at hordinal
  unfold hasOrdinalByDay at hordinal
  rw [List.any_eq_false] at hordinal
  unfold byDayAllowed WeekdaySelected
  rw [hdays, List.any_eq_true]
  refine exists_congr fun entry => and_congr_right fun hentry => ?_
  cases entry with
  | every day =>
    unfold EntrySelected
    rw [beq_iff_eq, PlainDateTime.dayNumber_date, eq_comm]
    rfl
  | nth day n => exact absurd rfl (hordinal _ hentry)

end Members

section Daily

variable (hinterval : 0 < rule.intervalInteger) (hplain : Plain rule) (hfreq : rule.freq = .daily)
include hinterval hplain hfreq

omit hinterval in
theorem mem_dayBucket {k : Nat} : x ∈ bucketSet rule dtstart k ↔
    x.dayNumber = dtstart.dayNumber + k * rule.intervalInteger ∧
      x.timeOfDay = dtstart.timeOfDay ∧ MonthSelected rule dtstart x.date ∧
        WeekdaySelected rule dtstart x.date := by
  rw [mem_bucketSet_plain hplain (by simp [needsDuration, hfreq])]
  simp only [periodOf, hfreq]
  have hday : DaySelected rule dtstart x.date := fun hdefaults => absurd hdefaults
    (by rw [defaultsDay_eq_false (by simp [calendarFrequency, hfreq])]; exact Bool.false_ne_true)
  tauto

omit hinterval in
/-- What a step by days takes comes to the buckets of the rule. -/
theorem collected_days {taken : Int → PlainDateTime → Bool} {step : Int}
    (h : ∀ x : PlainDateTime, (∃ k : Nat, x.dayNumber = dtstart.dayNumber + k * step ∧
        taken k x = true) ↔
      (∃ k : Nat, x.dayNumber = dtstart.dayNumber + k * rule.intervalInteger) ∧
        MonthSelected rule dtstart x.date ∧ WeekdaySelected rule dtstart x.date) :
    selectedSet rule dtstart bounds =
      collected (steppedBucket dtstart taken step) (window dtstart bounds) := by
  ext x
  refine and_congr_right fun _ => ?_
  simp only [mem_dayBucket hplain hfreq, steppedBucket, Set.mem_ofPred_eq]
  constructor
  · rintro ⟨k, hday, htime, hselected⟩
    obtain ⟨j, hj, htaken⟩ := (h x).mpr ⟨⟨k, hday⟩, hselected⟩
    exact ⟨j, hj, htime, htaken⟩
  · rintro ⟨j, hj, htime, htaken⟩
    obtain ⟨⟨k, hday⟩, hselected⟩ := (h x).mp ⟨j, hj, htaken⟩
    exact ⟨k, hday, htime, hselected⟩

theorem expandDaily_firsts (h : expandDaily rule dtstart bounds = .ok final) :
    Firsts bounds.limit (selectedSet rule dtstart bounds) final := by
  have hyearly : rule.byMonth = none → defaultsMonth rule = false := by simp [defaultsMonth, hfreq]
  have hfilters : ∀ x, candidateCalendarFiltersAllowed rule x = true ↔
      MonthSelected rule dtstart x.date := fun x => calendarFilters_iff hplain hyearly
  unfold expandDaily at h
  cases hdays : rule.byDay with
  | none =>
    simp only [hdays] at h
    obtain ⟨-, -, h⟩ := bind_eq_ok.mp h
    rw [dailyFrom_eq rule _ 0] at h
    have hfirsts := steppedFrom_firsts hinterval (k := 0) (by simp) rfl Firsts.start h
    rwa [← collected_days hplain hfreq fun x => ?_] at hfirsts
    have hweekday : WeekdaySelected rule dtstart x.date := by
      unfold WeekdaySelected
      rw [hdays]
      simp [hfreq]
    simp only [hfilters, exists_and_right, hweekday, and_true]
  | some days =>
    simp only [hdays, bind_eq_ok] at h
    obtain ⟨-, -, -, -, h⟩ := h
    rw [dailyByDayFrom_eq] at h
    have hfirsts := steppedFrom_firsts Int.one_pos (k := 0) (by simp) rfl Firsts.start h
    rwa [← collected_days hplain hfreq fun x => ?_] at hfirsts
    have hweekdays : ∀ x : PlainDateTime, byDayAllowed days x.isoWeekday = true ↔
        WeekdaySelected rule dtstart x.date := fun x => byDayAllowed_iff hplain hdays
    simp only [Bool.and_eq_true, beq_iff_eq, hfilters, hweekdays]
    constructor
    · rintro ⟨j, hj, ⟨hmod, hweekday⟩, hmonth⟩
      obtain ⟨n, hn⟩ := Int.dvd_of_emod_eq_zero hmod
      have hpos : 0 ≤ n := by
        by_contra hneg
        have : rule.intervalInteger * n < 0 := Int.mul_neg_of_pos_of_neg hinterval (by omega)
        omega
      refine ⟨⟨n.toNat, ?_⟩, hmonth, hweekday⟩
      rw [Int.toNat_of_nonneg hpos, mul_comm]
      omega
    · rintro ⟨⟨k, hk⟩, hmonth, hweekday⟩
      have hnonneg : 0 ≤ (k : Int) * rule.intervalInteger := Int.mul_nonneg (by omega) hinterval.le
      refine ⟨((k : Int) * rule.intervalInteger).toNat, ?_, ⟨?_, hweekday⟩, hmonth⟩
      · omega
      · rw [Int.toNat_of_nonneg hnonneg, Int.mul_emod_left]

end Daily

section Weekly

variable (hinterval : 0 < rule.intervalInteger) (hplain : Plain rule) (hfreq : rule.freq = .weekly)
include hinterval hplain hfreq

omit hinterval in
theorem mem_weekBucket {k : Nat} : x ∈ bucketSet rule dtstart k ↔
    x.dayNumber = dtstart.dayNumber + k * rule.intervalInteger * 7 ∧
      x.timeOfDay = dtstart.timeOfDay ∧ MonthSelected rule dtstart x.date := by
  rw [mem_bucketSet_plain hplain (by simp [needsDuration, hfreq])]
  have hday : DaySelected rule dtstart x.date := fun hdefaults => absurd hdefaults
    (by rw [defaultsDay_eq_false (by simp [calendarFrequency, hfreq])]; exact Bool.false_ne_true)
  have hweekday : WeekdaySelected rule dtstart x.date ↔ x.isoWeekday = dtstart.isoWeekday := by
    unfold WeekdaySelected
    rw [hplain.weekly hfreq, PlainDateTime.dayNumber_date]
    exact ⟨fun h => h hfreq, fun h _ => h⟩
  rw [hweekday]
  unfold PlainDateTime.isoWeekday Date.isoWeekday
  simp only [periodOf, hfreq, hplain.weekStart, Day.toNumber]
  generalize (k : Int) * rule.intervalInteger = n
  constructor
  · rintro ⟨hperiod, htime, hmonth, -, hiso⟩
    exact ⟨by omega, htime, hmonth⟩
  · rintro ⟨hdays, htime, hmonth⟩
    exact ⟨by omega, htime, hmonth, hday, by omega⟩

theorem expandWeekly_firsts (h : expandWeekly rule dtstart bounds = .ok final) :
    Firsts bounds.limit (selectedSet rule dtstart bounds) final := by
  have hyearly : rule.byMonth = none → defaultsMonth rule = false := by simp [defaultsMonth, hfreq]
  have hfilters : ∀ x, candidateCalendarFiltersAllowed rule x = true ↔
      MonthSelected rule dtstart x.date := fun x => calendarFilters_iff hplain hyearly
  unfold expandWeekly at h
  obtain ⟨-, -, h⟩ := bind_eq_ok.mp h
  rw [weeklyFrom_eq] at h
  have hfirsts := steppedFrom_firsts Int.one_pos (k := 0) (by simp) rfl Firsts.start h
  convert hfirsts using 1
  ext x
  refine and_congr_right fun _ => ?_
  simp only [mem_weekBucket hplain hfreq, steppedBucket, Set.mem_ofPred_eq,
    Bool.and_eq_true, beq_iff_eq, hfilters, weeklyDayAllowed, hplain.weekly hfreq]
  have hiso : ∀ p : PlainDateTime, p.isoWeekday = (p.dayNumber + 3) % 7 + 1 := fun _ => rfl
  rw [hiso, hiso]
  constructor
  · rintro ⟨k, hday, htime, hmonth⟩
    have hnonneg : 0 ≤ (k : Int) * rule.intervalInteger := Int.mul_nonneg (by omega) hinterval.le
    refine ⟨((k : Int) * rule.intervalInteger * 7).toNat, by omega, htime, ⟨?_, by omega⟩, hmonth⟩
    rw [Int.toNat_of_nonneg (by omega), Int.mul_ediv_cancel _ (by omega), Int.mul_emod_left]
  · rintro ⟨j, hj, htime, ⟨hmod, hweekday⟩, hmonth⟩
    obtain ⟨n, hn⟩ := Int.dvd_of_emod_eq_zero hmod
    have hpos : 0 ≤ n := by
      by_contra hneg
      have : rule.intervalInteger * n < 0 := Int.mul_neg_of_pos_of_neg hinterval (by omega)
      omega
    refine ⟨n.toNat, ?_, htime, hmonth⟩
    rw [Int.toNat_of_nonneg hpos, mul_comm n]
    omega

end Weekly

section Calendar

variable (hinterval : 0 < rule.intervalInteger) (hplain : Plain rule)
  (hfreq : calendarFrequency rule = true)

include hfreq in
theorem needsDuration_of_calendar : needsDuration rule = false := by
  unfold calendarFrequency at hfreq
  unfold needsDuration
  cases hcase : rule.freq <;> simp [hcase] at hfreq ⊢

include hfreq in
/-- The anchors of a month or a year keep the day of the start as far as their month has it. -/
theorem calendarAnchor_eq_ok {k : Nat} {anchor : PlainDateTime}
    (h : calendarAnchor rule dtstart k = .ok anchor) :
    periodOf rule anchor = periodOf rule dtstart + k * rule.intervalInteger ∧
      (rule.freq = .yearly → anchor.date.month = dtstart.date.month) ∧
        anchor.date.day = min dtstart.date.day
          (daysInMonth anchor.date.year anchor.date.month) ∧
          anchor.timeOfDay = dtstart.timeOfDay := by
  unfold calendarAnchor at h
  split_ifs at h with hzero
  · obtain rfl := pure_eq_ok.mp h
    subst hzero
    exact ⟨by simp, fun _ => rfl, (min_eq_left dtstart.date_valid.day.2).symm, rfl⟩
  · unfold calendarStep at h
    unfold periodOf
    split at h
    · next hmonthly =>
      obtain ⟨hmonths, hday, htime⟩ := PlainDateTime.addCalendar_eq_ok h
      simp only [hmonthly]
      exact ⟨by omega, by simp, hday, htime⟩
    · next hyearly =>
      obtain ⟨hyear, hmonth, hday, htime⟩ := addYears_eq_ok h
      simp only [hyearly]
      exact ⟨hyear, fun _ => hmonth, by rw [hmonth]; exact hday, htime⟩
    · cases h

include hfreq in
/-- In the period of an anchor, a date of the month of the anchor. -/
theorem period_iff {k : Nat} {anchor : PlainDateTime}
    (hperiod : periodOf rule anchor = periodOf rule dtstart + k * rule.intervalInteger)
    (hmonth : rule.freq = .yearly → anchor.date.month = dtstart.date.month) :
    periodOf rule x = periodOf rule dtstart + k * rule.intervalInteger ∧
        (rule.freq = .yearly → x.date.month = dtstart.date.month) ↔
      x.date.year = anchor.date.year ∧ x.date.month = anchor.date.month := by
  rw [← hperiod]
  have hx := x.date_valid.month
  have hanchor := anchor.date_valid.month
  unfold periodOf
  unfold calendarFrequency at hfreq
  cases hcase : rule.freq with
  | monthly =>
    simp only [reduceCtorEq, false_imp_iff, and_true]
    omega
  | yearly =>
    simp only [forall_const]
    rw [hmonth hcase]
  | _ => simp [hcase] at hfreq

include hinterval hplain hfreq

theorem calendarFirsts_past {k : Nat} {anchor : PlainDateTime}
    (h : calendarAnchor rule dtstart k = .ok anchor) :
    dtstart ≤ anchor ∧ ∀ j, k < j → ∀ y ∈ bucketSet rule dtstart j, anchor < y := by
  have hperiod := (calendarAnchor_eq_ok hfreq h).1
  refine ⟨?_, fun j hj y hy => lt_later_bucket hinterval hperiod hj hy⟩
  by_cases hzero : k = 0
  · unfold calendarAnchor at h
    rw [if_pos hzero] at h
    exact (pure_eq_ok.mp h).le
  · apply le_of_lt
    apply lt_of_period rule
    have : 0 < (k : Int) * rule.intervalInteger := Int.mul_pos (by omega) hinterval
    omega

/-- Without weekdays the step is the one member of its bucket. -/
theorem expandCalendar_firsts (h : expandCalendar rule dtstart bounds = .ok final) :
    Firsts bounds.limit (selectedSet rule dtstart bounds) final := by
  unfold expandCalendar at h
  simp only [bind_eq_ok, ensure_eq_ok] at h
  obtain ⟨-, hdays, -, -, -, -, h⟩ := h
  refine calendarFrom_firsts (bucketSet_ascends hinterval) (fun k anchor hanchor x => ?_)
    (fun k anchor hanchor => calendarFirsts_past hinterval hplain hfreq hanchor) Firsts.start h
  obtain ⟨hperiod, hmonth, hday, htime⟩ := calendarAnchor_eq_ok hfreq hanchor
  have hfilters : candidateCalendarFiltersAllowed rule anchor = true := by
    unfold candidateCalendarFiltersAllowed monthFilterAllowed monthDayFilterAllowed
    rw [hplain.calendar hfreq, hplain.monthDay]
    rfl
  have hdefaults : defaultsDay rule = true := by
    unfold defaultsDay
    rw [hfreq, hplain.monthDay, hdays, hplain.yearDay, hplain.weekNo]
    rfl
  have hmonths : MonthSelected rule dtstart x.date ↔
      (rule.freq = .yearly → x.date.month = dtstart.date.month) := by
    unfold MonthSelected defaultsMonth
    rw [hplain.calendar hfreq, hdefaults]
    simp
  have hweekday : WeekdaySelected rule dtstart x.date := by
    unfold WeekdaySelected
    rw [hdays]
    intro hweekly
    unfold calendarFrequency at hfreq
    simp [hweekly] at hfreq
  have hsameMonth : ∀ d : Date, (rule.freq = .yearly → d.month = dtstart.date.month) →
      (if rule.freq = .yearly then dtstart.date.month else d.month) = d.month := by
    intro d hd
    split_ifs with hyearly
    · exact (hd hyearly).symm
    · rfl
  rw [mem_bucketSet_plain hplain (needsDuration_of_calendar hfreq)]
  constructor
  · rintro ⟨hx, hxTime, hxMonth, hxDay, -⟩
    have hxMonth := hmonths.mp hxMonth
    obtain ⟨hyears, hsame⟩ := (period_iff hfreq hperiod hmonth).mp ⟨hx, hxMonth⟩
    have hxDay := hxDay hdefaults
    rw [hsameMonth _ hxMonth, hyears, hsame, ← hday] at hxDay
    exact ⟨PlainDateTime.eq_of_day_time (date_eq_date_iff.mp (Date.ext hyears hsame hxDay))
      (hxTime.trans htime.symm), hfilters⟩
  · rintro ⟨rfl, -⟩
    refine ⟨hperiod, htime, hmonths.mpr hmonth, fun _ => ?_, hweekday⟩
    rw [hsameMonth _ hmonth]
    exact hday

omit hinterval hplain hfreq in
/-- The days of a month that pass the weekday filter, each once. -/
theorem monthWeekdayCandidates_spec {year month : Int} (hbyte : 0 ≤ month ∧ month < 256) :
    (monthWeekdayCandidates rule dtstart year month).Nodup ∧
      ∀ x, x ∈ monthWeekdayCandidates rule dtstart year month ↔
        (x.date.year = year ∧ x.date.month = month) ∧ x.timeOfDay = dtstart.timeOfDay ∧
          byDayFilterAllowed rule x = true := by
  have hbuilt : ∀ day ∈ List.range 31, ∀ x : PlainDateTime,
      x ∈ (buildGeneratedCandidate dtstart year month ((day : Int) + 1)).filter
        (byDayFilterAllowed rule) ↔
      (x.date = ⟨year, month, day + 1⟩ ∧ x.timeOfDay = dtstart.timeOfDay) ∧
        byDayFilterAllowed rule x = true := by
    intro day hday x
    have := List.mem_range.mp hday
    rw [Option.mem_def, Option.filter_eq_some_iff,
      buildGeneratedCandidate_eq_some hbyte (by omega)]
  unfold monthWeekdayCandidates
  constructor
  · refine List.pairwise_filterMap.mpr (List.nodup_range.imp_of_mem ?_)
    intro day day' hmem hmem' hne x hx x' hx' hsame
    have hday := ((hbuilt day hmem x).mp hx).1.1
    have hday' := ((hbuilt day' hmem' x').mp hx').1.1
    rw [← hsame] at hday'
    have := congrArg Date.day (hday.symm.trans hday')
    dsimp only at this
    omega
  · intro x
    simp only [List.mem_filterMap]
    constructor
    · rintro ⟨day, hmem, hx⟩
      obtain ⟨⟨hdate, htime⟩, hallowed⟩ := (hbuilt day hmem x).mp hx
      rw [hdate]
      exact ⟨⟨rfl, rfl⟩, htime, hallowed⟩
    · rintro ⟨⟨rfl, rfl⟩, htime, hallowed⟩
      have hbounds := x.date_valid.day
      have hmonth := x.date_valid.month
      have hstep := @daysBeforeMonth_step x.date.year _ hmonth.1 hmonth.2
      have hlength : daysInMonth x.date.year x.date.month ≤ 31 := by
        unfold daysInMonth
        omega
      have hmem : (x.date.day - 1).toNat ∈ List.range 31 := List.mem_range.mpr (by omega)
      refine ⟨_, hmem, ?_⟩
      refine (hbuilt _ hmem x).mpr ⟨⟨Date.ext rfl rfl ?_, htime⟩, hallowed⟩
      dsimp only
      omega

omit hinterval in
/-- With weekdays every such day of the month of the anchor is a member. -/
theorem generatedCandidates_spec {days : List ByDay} (hdays : rule.byDay = some days) {k : Nat}
    {anchor : PlainDateTime} (hanchor : calendarAnchor rule dtstart k = .ok anchor) :
    (generatedCandidatesForAnchor rule dtstart anchor).Nodup ∧
      ∀ x, x ∈ generatedCandidatesForAnchor rule dtstart anchor ↔
        x ∈ bucketSet rule dtstart k := by
  obtain ⟨hperiod, hmonth, -, -⟩ := calendarAnchor_eq_ok hfreq hanchor
  have hmonths : ∀ d, MonthSelected rule dtstart d ↔
      (rule.freq = .yearly → d.month = dtstart.date.month) := by
    intro d
    unfold MonthSelected defaultsMonth
    rw [hplain.calendar hfreq, plain_iff.mpr hplain]
    simp
  have hgenerated : generatedCandidatesForAnchor rule dtstart anchor =
      monthWeekdayCandidates rule dtstart anchor.date.year anchor.date.month := by
    unfold generatedCandidatesForAnchor generatedInMonth yearlyGeneratedMonths monthFilterAllowed
    rw [hplain.calendar hfreq, hplain.monthDay, hdays]
    unfold calendarFrequency at hfreq
    cases hcase : rule.freq with
    | monthly => rfl
    | yearly =>
      simp only [List.flatMap_cons, List.flatMap_nil, List.append_nil, PlainDateTime.fields_month,
        PlainDateTime.fields_year, hmonth hcase]
    | _ => simp [hcase] at hfreq
  have hday : ∀ d, DaySelected rule dtstart d := by
    intro d hdefaults
    unfold defaultsDay at hdefaults
    simp [hdays] at hdefaults
  rw [hgenerated]
  have hspec := @monthWeekdayCandidates_spec rule dtstart anchor.date.year _ anchor.month_byte
  obtain ⟨hnodup, hmem⟩ := hspec
  refine ⟨hnodup, fun x => ?_⟩
  rw [hmem, mem_bucketSet_plain hplain (needsDuration_of_calendar hfreq)]
  have hweekdays : byDayFilterAllowed rule x = true ↔ WeekdaySelected rule dtstart x.date := by
    unfold byDayFilterAllowed
    rw [← byDayAllowed_iff hplain hdays, hdays]
  rw [hweekdays, hmonths, ← period_iff hfreq hperiod hmonth]
  constructor
  · rintro ⟨⟨hx, hxMonth⟩, hxTime, hxWeekday⟩
    exact ⟨hx, hxTime, hxMonth, hday x.date, hxWeekday⟩
  · rintro ⟨hx, hxTime, hxMonth, -, hxWeekday⟩
    exact ⟨⟨hx, hxMonth⟩, hxTime, hxWeekday⟩

theorem expandCalendarGenerator_firsts {days : List ByDay} (hdays : rule.byDay = some days)
    (h : expandCalendarGenerator rule dtstart bounds = .ok final) :
    Firsts bounds.limit (selectedSet rule dtstart bounds) final := by
  unfold expandCalendarGenerator at h
  simp only [bind_eq_ok] at h
  obtain ⟨-, -, -, -, h⟩ := h
  rw [calendarGeneratorFrom_eq] at h
  refine anchoredCandidatesFrom_firsts (bucketSet_ascends hinterval) ?_
    (fun k anchor hanchor => (calendarFirsts_past hinterval hplain hfreq hanchor).2) Firsts.start h
  intro k anchor candidates hanchor hcandidates
  obtain rfl := pure_eq_ok.mp hcandidates
  exact generatedCandidates_spec hplain hfreq hdays hanchor

end Calendar

/-- Rules that step from their start. -/
theorem expandPlain_firsts (hinterval : 0 < rule.intervalInteger) (hplain : Plain rule)
    (h : expandPlain rule dtstart bounds = .ok final) :
    Firsts bounds.limit (selectedSet rule dtstart bounds) final := by
  have hcalendar : ∀ {freq}, rule.freq = freq → freq = .monthly ∨ freq = .yearly →
      (if rule.byMonthDay.isSome || rule.byDay.isSome then
        expandCalendarGenerator rule dtstart bounds else expandCalendar rule dtstart bounds) =
          .ok final → Firsts bounds.limit (selectedSet rule dtstart bounds) final := by
    intro freq hfreq hcases h
    have hcal : calendarFrequency rule = true := by
      unfold calendarFrequency
      rw [hfreq]
      rcases hcases with rfl | rfl <;> rfl
    rw [hplain.monthDay, Option.isSome_none, Bool.false_or] at h
    cases hdays : rule.byDay with
    | none =>
      rw [hdays] at h
      exact expandCalendar_firsts hinterval hplain hcal h
    | some days =>
      rw [hdays] at h
      exact expandCalendarGenerator_firsts hinterval hplain hcal hdays h
  unfold expandPlain at h
  split at h
  · next hfreq => exact hcalendar hfreq (.inl rfl) h
  · next hfreq => exact hcalendar hfreq (.inr rfl) h
  · next hfreq => exact expandDaily_firsts hinterval hplain hfreq h
  · next hfreq => exact expandWeekly_firsts hinterval hplain hfreq h
  · cases h

end Space2.Recurrence
