import Space2.Recurrence.Candidates

/-!
# The buckets

The days the engine walks for a bucket are those of its period, so that the candidates it builds
are the members of the bucket.
-/
namespace Space2.Recurrence
open Base Temporal

variable {rule : Rule} {dtstart : PlainDateTime} {k : Nat} {candidates : List PlainDateTime}

section Order

theorem bucketSet_ascends (hinterval : 0 < rule.intervalInteger) :
    Ascends (bucketSet rule dtstart) := by
  intro j k hjk x hx y hy
  apply lt_of_period rule
  rw [mem_bucketSet_period hx, mem_bucketSet_period hy]
  have : (j : Int) * rule.intervalInteger < k * rule.intervalInteger :=
    Int.mul_lt_mul_of_pos_right (by omega) hinterval
  omega

/-- A date-time of the period of a bucket lies before the later buckets. -/
theorem lt_later_bucket (hinterval : 0 < rule.intervalInteger) {anchor x : PlainDateTime} {j : Nat}
    (hanchor : periodOf rule anchor = periodOf rule dtstart + k * rule.intervalInteger)
    (hjk : k < j) (hx : x ∈ bucketSet rule dtstart j) : anchor < x := by
  apply lt_of_period rule
  rw [hanchor, mem_bucketSet_period hx]
  have : (k : Int) * rule.intervalInteger < j * rule.intervalInteger :=
    Int.mul_lt_mul_of_pos_right (by omega) hinterval
  omega

end Order

section Days

theorem bucketSet_eq_days (first : Int) (days : Nat)
    (h : ∀ x, periodOf rule x = periodOf rule dtstart + k * rule.intervalInteger ↔
      first ≤ x.dayNumber ∧ x.dayNumber < first + days) :
    bucketSet rule dtstart k = positioned rule (daysSet rule dtstart first days) := by
  have hset : candidateSet rule dtstart k = daysSet rule dtstart first days := by
    ext x
    exact and_congr_left fun _ => h x
  rw [bucketSet, hset]

/-- Only months and years default to the day of the start. -/
theorem defaultsDay_eq_false (h : calendarFrequency rule = false) : defaultsDay rule = false := by
  unfold defaultsDay
  rw [h]
  rfl

theorem defaultDay_none (h : calendarFrequency rule = false) (c : PlainDateTime) :
    defaultMonthDayAllowed rule c none = true ↔ DaySelected rule dtstart c.date :=
  iff_of_true rfl fun hdefaults =>
    absurd hdefaults (by rw [defaultsDay_eq_false h]; exact Bool.false_ne_true)

theorem defaultDay_some {c : PlainDateTime} {day : Int}
    (h : day = min dtstart.date.day (daysInMonth c.date.year
      (if rule.freq = .yearly then dtstart.date.month else c.date.month))) :
    defaultMonthDayAllowed rule c (some day) = true ↔ DaySelected rule dtstart c.date := by
  have hcode : defaultMonthDayAllowed rule c (some day) =
      if defaultsDay rule then c.fields.day == day else true := rfl
  rw [hcode, DaySelected, ← h]
  split_ifs with hdefaults
  · rw [beq_iff_eq, PlainDateTime.fields_day]
    exact ⟨fun heq _ => heq, fun heq => heq hdefaults⟩
  · exact iff_of_true rfl fun hdef => absurd hdef hdefaults

theorem dayBucket_spec (hfreq : rule.freq = .daily) {current : PlainDateTime}
    (hday : current.dayNumber = dtstart.dayNumber + k * rule.intervalInteger)
    (htime : current.timeOfDay = dtstart.timeOfDay)
    (h : buildDayCandidates rule dtstart current 1 false none = .ok candidates) :
    candidates.Nodup ∧ ∀ x, x ∈ candidates ↔ x ∈ bucketSet rule dtstart k := by
  rw [bucketSet_eq_days current.dayNumber 1]
  · refine buildDayCandidates_spec ?_ htime ?_ ?_ (fun c _ _ => defaultDay_none ?_ c) h
    · simp [needsDuration, hfreq]
    · simp [defaultsMonth, hfreq]
    · simp [countsInYear, hfreq]
    · simp [calendarFrequency, hfreq]
  · intro x
    simp only [periodOf, hfreq]
    omega

/-- Where the weeks of a rule start. -/
def firstWeek (rule : Rule) (dtstart : PlainDateTime) : Int :=
  dtstart.dayNumber - (dtstart.dayNumber + 3 - (rule.weekStart.toNumber - 1)) % 7

theorem weekBucket_spec (hfreq : rule.freq = .weekly) {start : PlainDateTime}
    (hday : start.dayNumber = firstWeek rule dtstart + k * (rule.intervalInteger * 7))
    (htime : start.timeOfDay = dtstart.timeOfDay)
    (h : buildDayCandidates rule dtstart start 7 false none = .ok candidates) :
    candidates.Nodup ∧ ∀ x, x ∈ candidates ↔ x ∈ bucketSet rule dtstart k := by
  rw [bucketSet_eq_days start.dayNumber 7]
  · refine buildDayCandidates_spec ?_ htime ?_ ?_ (fun c _ _ => defaultDay_none ?_ c) h
    · simp [needsDuration, hfreq]
    · simp [defaultsMonth, hfreq]
    · simp [countsInYear, hfreq]
    · simp [calendarFrequency, hfreq]
  · intro x
    simp only [periodOf, hfreq]
    rw [hday, firstWeek, ← mul_assoc]
    generalize (k : Int) * rule.intervalInteger = n
    push_cast
    omega

end Days

section Months

variable {anchor : PlainDateTime}

theorem monthBucket_spec (hfreq : rule.freq = .monthly)
    (hanchor : dtstart.addCalendar 0 (k * rule.intervalInteger) = .ok anchor)
    (h : monthBucket rule dtstart anchor = .ok candidates) :
    candidates.Nodup ∧ ∀ x, x ∈ candidates ↔ x ∈ bucketSet rule dtstart k := by
  obtain ⟨hmonths, hanchorDay, -⟩ := PlainDateTime.addCalendar_eq_ok hanchor
  unfold monthBucket at h
  simp only [PlainDateTime.fields_year, PlainDateTime.fields_month, PlainDateTime.fields_day] at h
  cases hwithin : daysInMonthWithin anchor.date.year anchor.date.month with
  | none =>
    rw [hwithin] at h
    cases h
  | some days =>
    rw [hwithin] at h
    obtain rfl := daysInMonthWithin_eq anchor.month_byte hwithin
    obtain ⟨start, hstart, h⟩ := bind_eq_ok.mp h
    obtain ⟨hstartDate, htime⟩ := (buildGeneratedCandidate_eq_some anchor.month_byte
      (by decide)).mp (required_eq_ok.mp hstart)
    have hfirst : start.dayNumber = Date.dayNumber ⟨anchor.date.year, anchor.date.month, 1⟩ := by
      rw [← start.dayNumber_date, hstartDate]
    have hanchorMonth := anchor.date_valid.month
    have hlength := anchor.date_valid.day
    have hin : ∀ x : PlainDateTime, x.date.year = anchor.date.year ∧
        x.date.month = anchor.date.month ↔ start.dayNumber ≤ x.dayNumber ∧
          x.dayNumber < start.dayNumber +
            (daysInMonth anchor.date.year anchor.date.month).toNat := by
      intro x
      have hmonth : x.date.year = anchor.date.year ∧ x.date.month = anchor.date.month ↔ _ :=
        Date.ofDayNumber_month_iff hanchorMonth
      rw [hmonth, hfirst]
      omega
    rw [bucketSet_eq_days start.dayNumber
      (daysInMonth anchor.date.year anchor.date.month).toNat]
    · refine buildDayCandidates_spec ?_ htime ?_ ?_ (fun c hlow hhigh => defaultDay_some ?_) h
      · simp [needsDuration, hfreq]
      · simp [defaultsMonth, hfreq]
      · simp [countsInYear, hfreq]
      · obtain ⟨hyear, hmonth⟩ := (hin c).mpr ⟨hlow, hhigh⟩
        rw [if_neg (by simp [hfreq]), hyear, hmonth]
        exact hanchorDay
    · intro x
      rw [← hin]
      have hxMonth := x.date_valid.month
      simp only [periodOf, hfreq]
      omega

end Months

section Years

variable {anchor : PlainDateTime}

theorem addYears_eq_ok {years : Int} (h : dtstart.addCalendar years 0 = .ok anchor) :
    anchor.date.year = dtstart.date.year + years ∧ anchor.date.month = dtstart.date.month ∧
      anchor.date.day = min dtstart.date.day (daysInMonth anchor.date.year dtstart.date.month) ∧
        anchor.timeOfDay = dtstart.timeOfDay := by
  obtain ⟨hmonths, hday, htime⟩ := PlainDateTime.addCalendar_eq_ok h
  have hmonth := anchor.date_valid.month
  have hmonth' := dtstart.date_valid.month
  have hsame : anchor.date.month = dtstart.date.month := by omega
  exact ⟨by omega, hsame, by rw [hday, hsame], htime⟩

theorem yearBucket_spec (hfreq : rule.freq = .yearly)
    (hmonth : rule.byMonth = none → defaultsMonth rule = false)
    (hanchor : dtstart.addCalendar (k * rule.intervalInteger) 0 = .ok anchor)
    (h : yearBucket rule dtstart anchor = .ok candidates) :
    candidates.Nodup ∧ ∀ x, x ∈ candidates ↔ x ∈ bucketSet rule dtstart k := by
  obtain ⟨hyear, -, hday, -⟩ := addYears_eq_ok hanchor
  unfold yearBucket at h
  simp only [PlainDateTime.fields_year, PlainDateTime.fields_day] at h
  obtain ⟨start, hstart, h⟩ := bind_eq_ok.mp h
  obtain ⟨hfirst, htime⟩ := required_first hstart
  have hpos := daysInYear_pos anchor.date.year
  have hin : ∀ x : PlainDateTime, x.date.year = anchor.date.year ↔
      start.dayNumber ≤ x.dayNumber ∧
        x.dayNumber < start.dayNumber + (daysInYear anchor.date.year).toNat := by
    intro x
    have hyears : x.date.year = anchor.date.year ↔ _ := Date.ofDayNumber_year_iff
    rw [hyears, hfirst]
    omega
  rw [bucketSet_eq_days start.dayNumber (daysInYear anchor.date.year).toNat]
  · refine buildDayCandidates_spec ?_ htime hmonth ?_ (fun c hlow hhigh => defaultDay_some ?_) h
    · simp [needsDuration, hfreq]
    · simp [countsInYear, hfreq]
    · rw [if_pos hfreq, (hin c).mpr ⟨hlow, hhigh⟩]
      exact hday
  · intro x
    rw [← hin]
    simp only [periodOf, hfreq]
    omega

end Years

section SubDaily

variable {anchor x : PlainDateTime} {step : Int}

theorem exactAddSeconds_eq_ok {seconds : Int} (h : exactAddSeconds dtstart seconds = .ok anchor) :
    anchor.nanoseconds = dtstart.nanoseconds + seconds * nanosPerSecond := by
  unfold exactAddSeconds PlainDateTime.add checked at h
  simp only [bind_eq_ok, pure_eq_ok] at h
  obtain ⟨duration, hduration, sum, hsum, rfl⟩ := h
  split_ifs at hduration with hrange
  obtain rfl := pure_eq_ok.mp hduration
  split_ifs at hsum with hrange'
  obtain rfl := pure_eq_ok.mp hsum
  rfl

theorem freq_of_needsDuration (h : needsDuration rule = true) :
    rule.freq ≠ .yearly ∧ calendarFrequency rule = false := by
  unfold needsDuration at h
  unfold calendarFrequency
  cases hfreq : rule.freq <;> simp [hfreq] at h ⊢

/-- A test of the date and of the parts of the time that are selected. -/
theorem subDaily_allowed_iff (hduration : needsDuration rule = true)
    (hsupported : hasUnsupportedSubDailyDateSelectors rule = false) {allowed : Bool}
    (h : dateSelectorsAllowed rule x dtstart false none = .ok allowed) :
    (allowed && timeSelectorsAllowed rule x) = true ↔ DateSelected rule dtstart x.date ∧
      UnitSelected rule.byHour false dtstart.fields.hour x.fields.hour ∧
        UnitSelected rule.byMinute false dtstart.fields.minute x.fields.minute ∧
          UnitSelected rule.bySecond false dtstart.fields.second x.fields.second := by
  obtain ⟨hyearly, hcalendar⟩ := freq_of_needsDuration hduration
  have hweekNo : rule.byWeekNo = none := by
    simp only [hasUnsupportedSubDailyDateSelectors, Bool.or_eq_false_iff,
      Option.isSome_eq_false_iff, Option.isNone_iff_eq_none] at hsupported
    exact hsupported.1.2
  rw [Bool.and_eq_true, dateSelectorsAllowed_iff (.inl hweekNo) ?_ ?_ (defaultDay_none hcalendar x) h,
    timeSelectorsAllowed_iff]
  · simp [defaultsMonth, hyearly]
  · simp [countsInYear, hyearly]

theorem selectedCandidates_spec (hduration : needsDuration rule = true)
    (hsupported : hasUnsupportedSubDailyDateSelectors rule = false)
    {found : List PlainDateTime} (h : selectedCandidates rule dtstart found = .ok candidates) :
    candidates.Nodup ∧ ∀ x, x ∈ candidates ↔ x ∈ found ∧ DateSelected rule dtstart x.date ∧
      UnitSelected rule.byHour false dtstart.fields.hour x.fields.hour ∧
        UnitSelected rule.byMinute false dtstart.fields.minute x.fields.minute ∧
          UnitSelected rule.bySecond false dtstart.fields.second x.fields.second := by
  unfold selectedCandidates at h
  obtain ⟨selected, hselected, h⟩ := bind_eq_ok.mp h
  obtain rfl := pure_eq_ok.mp h
  refine ⟨insertAllOnce_nodup _, fun x => ?_⟩
  rw [mem_insertAllOnce]
  refine mem_selectM (P := fun x => DateSelected rule dtstart x.date ∧
      UnitSelected rule.byHour false dtstart.fields.hour x.fields.hour ∧
        UnitSelected rule.byMinute false dtstart.fields.minute x.fields.minute ∧
          UnitSelected rule.bySecond false dtstart.fields.second x.fields.second)
    (fun candidate _ b hb => ?_) hselected x
  obtain ⟨allowed, hallowed, hb⟩ := bind_eq_ok.mp hb
  obtain rfl := pure_eq_ok.mp hb
  exact subDaily_allowed_iff hduration hsupported hallowed

theorem unitSelected_true_and {items : Option (List Number)} {start value : Int} :
    UnitSelected items true start value ∧ UnitSelected items false start value ↔
      UnitSelected items true start value := by
  unfold UnitSelected
  cases items with
  | none => simp
  | some items => simp

theorem fields_time (x : PlainDateTime) : x.dayNumber = x.nanoseconds / nanosPerDay ∧
    x.fields.hour = x.nanoseconds % nanosPerDay / nanosPerSecond / 3600 ∧
    x.fields.minute = x.nanoseconds % nanosPerDay / nanosPerSecond / 60 % 60 ∧
    x.fields.second = x.nanoseconds % nanosPerDay / nanosPerSecond % 60 ∧
    x.fields.nanosecond = x.nanoseconds % nanosPerDay % nanosPerSecond :=
  ⟨rfl, rfl, rfl, rfl, rfl⟩

theorem secondBucket_spec (hfreq : rule.freq = .secondly)
    (hsupported : hasUnsupportedSubDailyDateSelectors rule = false)
    (hanchor : exactAddSeconds dtstart (k * rule.intervalInteger) = .ok anchor)
    (h : buildSubDailyCandidates rule dtstart anchor = .ok candidates) :
    candidates.Nodup ∧ ∀ x, x ∈ candidates ↔ x ∈ bucketSet rule dtstart k := by
  have hduration : needsDuration rule = true := by simp [needsDuration, hfreq]
  have hnanos := exactAddSeconds_eq_ok hanchor
  unfold buildSubDailyCandidates at h
  simp only [hfreq] at h
  obtain ⟨allowed, hallowed, h⟩ := bind_eq_ok.mp h
  obtain rfl := pure_eq_ok.mp h
  have htest := subDaily_allowed_iff hduration hsupported hallowed
  have hset : ∀ x, x ∈ candidateSet rule dtstart k ↔
      x = anchor ∧ (allowed && timeSelectorsAllowed rule anchor) = true := by
    intro x
    have hsame : (periodOf rule x = periodOf rule dtstart + k * rule.intervalInteger ∧
        x.fields.nanosecond = dtstart.fields.nanosecond) ↔ x = anchor := by
      rw [(fields_time x).2.2.2.2, (fields_time dtstart).2.2.2.2]
      simp only [periodOf, hfreq]
      generalize (k : Int) * rule.intervalInteger = n at *
      unfold nanosPerDay nanosPerSecond at *
      constructor
      · rintro ⟨hperiod, hnano⟩
        exact PlainDateTime.nanoseconds_injective (by omega)
      · rintro rfl
        omega
    rw [htest, ← hsame]
    constructor
    · rintro ⟨hperiod, hdate, hhour, hminute, hsecond, hnano⟩
      obtain rfl := hsame.mp ⟨hperiod, hnano⟩
      rw [hduration] at hhour hminute
      simp only [hfreq] at hminute hsecond
      exact ⟨⟨hperiod, hnano⟩, hdate, hhour, hminute, hsecond⟩
    · rintro ⟨⟨hperiod, hnano⟩, hdate, hhour, hminute, hsecond⟩
      obtain rfl := hsame.mp ⟨hperiod, hnano⟩
      refine ⟨hperiod, hdate, ?_, ?_, ?_, hnano⟩
      · rwa [hduration]
      · rw [hduration, hfreq]
        exact hminute
      · rw [hfreq]
        exact hsecond
  unfold bucketSet
  split_ifs with hpassed
  · refine applyBySetPos_spec (List.nodup_singleton anchor) fun x => ?_
    rw [List.mem_singleton, hset]
    exact ⟨fun heq => ⟨heq, hpassed⟩, And.left⟩
  · refine ⟨List.nodup_nil, fun x => iff_of_false List.not_mem_nil fun hx => ?_⟩
    exact hpassed ((hset x).mp (positioned_subset rule _ hx)).2

theorem minuteBucket_spec (hfreq : rule.freq = .minutely)
    (hsupported : hasUnsupportedSubDailyDateSelectors rule = false)
    (hanchor : exactAddSeconds dtstart (k * (rule.intervalInteger * 60)) = .ok anchor)
    (h : buildSubDailyCandidates rule dtstart anchor = .ok candidates) :
    candidates.Nodup ∧ ∀ x, x ∈ candidates ↔ x ∈ bucketSet rule dtstart k := by
  have hduration : needsDuration rule = true := by simp [needsDuration, hfreq]
  have hnanos := exactAddSeconds_eq_ok hanchor
  unfold buildSubDailyCandidates at h
  simp only [hfreq] at h
  unfold buildMinuteCandidates at h
  obtain ⟨selected, hselected, h⟩ := bind_eq_ok.mp h
  obtain rfl := pure_eq_ok.mp h
  obtain ⟨hnodup, hmem⟩ := selectedCandidates_spec hduration hsupported hselected
  refine applyBySetPos_spec hnodup fun x => ?_
  have hperiod : periodOf rule x = periodOf rule dtstart + k * rule.intervalInteger ↔
      x.date = anchor.date ∧ x.fields.hour = anchor.fields.hour ∧
        x.fields.minute = anchor.fields.minute := by
    obtain ⟨hday, hhour, hminute, -, -⟩ := fields_time x
    obtain ⟨hday', hhour', hminute', -, -⟩ := fields_time anchor
    rw [date_eq_date_iff, hday, hhour, hminute, hday', hhour', hminute']
    simp only [periodOf, hfreq]
    rw [← mul_assoc] at hnanos
    generalize (k : Int) * rule.intervalInteger = n at *
    unfold nanosPerDay nanosPerSecond at *
    omega
  simp only [hmem, List.mem_filterMap, buildTimeCandidate_date, mem_selectedValues,
    fields_eq_date_iff]
  constructor
  · rintro ⟨⟨second, hsecond, hdate, hhour, hminute, rfl, hnano⟩, hdates, hhours, hminutes, -⟩
    refine ⟨hperiod.mpr ⟨hdate, hhour, hminute⟩, hdates, ?_, ?_, ?_, hnano⟩
    · rwa [hduration]
    · rw [hduration, hfreq]
      exact hminutes
    · rw [hfreq]
      exact hsecond
  · rintro ⟨hin, hdates, hhours, hminutes, hsecond, hnano⟩
    obtain ⟨hdate, hhour, hminute⟩ := hperiod.mp hin
    rw [hduration] at hhours hminutes
    rw [hfreq] at hminutes hsecond
    exact ⟨⟨_, hsecond, hdate, hhour, hminute, rfl, hnano⟩, hdates, hhours, hminutes,
      (unitSelected_true_and.mpr hsecond).2⟩

theorem hourBucket_spec (hfreq : rule.freq = .hourly)
    (hsupported : hasUnsupportedSubDailyDateSelectors rule = false)
    (hanchor : exactAddSeconds dtstart (k * (rule.intervalInteger * 3600)) = .ok anchor)
    (h : buildSubDailyCandidates rule dtstart anchor = .ok candidates) :
    candidates.Nodup ∧ ∀ x, x ∈ candidates ↔ x ∈ bucketSet rule dtstart k := by
  have hduration : needsDuration rule = true := by simp [needsDuration, hfreq]
  have hnanos := exactAddSeconds_eq_ok hanchor
  unfold buildSubDailyCandidates at h
  simp only [hfreq] at h
  unfold buildHourCandidates at h
  obtain ⟨selected, hselected, h⟩ := bind_eq_ok.mp h
  obtain rfl := pure_eq_ok.mp h
  obtain ⟨hnodup, hmem⟩ := selectedCandidates_spec hduration hsupported hselected
  refine applyBySetPos_spec hnodup fun x => ?_
  have hperiod : periodOf rule x = periodOf rule dtstart + k * rule.intervalInteger ↔
      x.date = anchor.date ∧ x.fields.hour = anchor.fields.hour := by
    obtain ⟨hday, hhour, -, -, -⟩ := fields_time x
    obtain ⟨hday', hhour', -, -, -⟩ := fields_time anchor
    rw [date_eq_date_iff, hday, hhour, hday', hhour']
    simp only [periodOf, hfreq]
    rw [← mul_assoc] at hnanos
    generalize (k : Int) * rule.intervalInteger = n at *
    unfold nanosPerDay nanosPerSecond at *
    omega
  simp only [hmem, List.mem_flatMap, List.mem_filterMap, buildTimeCandidate_date,
    mem_selectedValues, fields_eq_date_iff]
  constructor
  · rintro ⟨⟨minute, hminute, second, hsecond, hdate, hhour, rfl, rfl, hnano⟩, hdates, hhours, -, -⟩
    refine ⟨hperiod.mpr ⟨hdate, hhour⟩, hdates, ?_, ?_, ?_, hnano⟩
    · rwa [hduration]
    · rw [hduration, hfreq]
      exact hminute
    · rw [hfreq]
      exact hsecond
  · rintro ⟨hin, hdates, hhours, hminute, hsecond, hnano⟩
    obtain ⟨hdate, hhour⟩ := hperiod.mp hin
    rw [hduration] at hhours hminute
    rw [hfreq] at hminute hsecond
    exact ⟨⟨_, hminute, _, hsecond, hdate, hhour, rfl, rfl, hnano⟩, hdates, hhours,
      (unitSelected_true_and.mpr hminute).2, (unitSelected_true_and.mpr hsecond).2⟩

end SubDaily

end Space2.Recurrence
