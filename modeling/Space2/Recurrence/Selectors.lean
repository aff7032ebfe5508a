import Space2.Recurrence.Selection
import Mathlib.Tactic.IntervalCases

/-!
# The selectors

What each selector of the engine tests, stated about the date and the time of a candidate.
-/
namespace Space2.Recurrence
open Base Temporal

variable {rule : Rule} {dtstart candidate x : PlainDateTime}

section Built

theorem toOption_eq_some {ε α : Type} {r : Except ε α} {a : α} :
    r.toOption = some a ↔ r = .ok a := by
  cases r <;> simp [Except.toOption]

theorem buildTimeCandidate_eq_some {year month day hour minute second : Int}
    (hmonth : 0 ≤ month ∧ month < 256) (hday : 0 ≤ day ∧ day < 256) :
    buildTimeCandidate candidate year month day hour minute second = some x ↔
      x.fields = ⟨year, month, day, hour, minute, second, candidate.fields.nanosecond⟩ := by
  unfold buildTimeCandidate
  rw [toOption_eq_some, PlainDateTime.fromFields_eq_ok, PlainDateTime.stored_eq hmonth hday]

/-- Another time on the date of a date-time. -/
theorem buildTimeCandidate_date {other : PlainDateTime} {hour minute second : Int} :
    buildTimeCandidate candidate other.fields.year other.fields.month other.fields.day hour minute
        second = some x ↔
      x.fields = ⟨other.fields.year, other.fields.month, other.fields.day, hour, minute, second,
        candidate.fields.nanosecond⟩ :=
  buildTimeCandidate_eq_some other.month_byte other.day_byte

theorem buildGeneratedCandidate_eq_some {year month day : Int}
    (hmonth : 0 ≤ month ∧ month < 256) (hday : 0 ≤ day ∧ day < 256) :
    buildGeneratedCandidate dtstart year month day = some x ↔
      x.date = ⟨year, month, day⟩ ∧ x.timeOfDay = dtstart.timeOfDay := by
  unfold buildGeneratedCandidate
  rw [buildTimeCandidate_eq_some hmonth hday]
  exact PlainDateTime.fields_eq_iff

theorem required_eq_ok {candidate : Option PlainDateTime} :
    required candidate = .ok x ↔ candidate = some x := by
  cases candidate with
  | none => simp [required]
  | some y => simp [required]

/-- The first day of a year, when it can be built. -/
theorem required_first {year : Int}
    (h : required (buildGeneratedCandidate dtstart year 1 1) = .ok x) :
    x.dayNumber = Date.dayNumber ⟨year, 1, 1⟩ ∧ x.timeOfDay = dtstart.timeOfDay := by
  obtain ⟨hdate, htime⟩ := (buildGeneratedCandidate_eq_some (by decide) (by decide)).mp
    (required_eq_ok.mp h)
  exact ⟨by rw [← x.dayNumber_date, hdate], htime⟩

end Built

section Months

theorem monthFilterAllowed_iff (h : rule.byMonth = none → defaultsMonth rule = false) :
    monthFilterAllowed rule candidate = true ↔ MonthSelected rule dtstart candidate.date := by
  unfold monthFilterAllowed MonthSelected
  cases hmonths : rule.byMonth with
  | none => simp [h hmonths]
  | some months => simp

/-- The last representable day of April 2262 is its eleventh, so a month whose last days lie past
the range has none of the days looked for. -/
theorem daysInMonthWithin_eq {year month day : Int} (hbyte : 0 ≤ month ∧ month < 256)
    (h : daysInMonthWithin year month = some day) : day = daysInMonth year month := by
  unfold daysInMonthWithin at h
  have hfound := List.find?_some h
  have hmem : day ∈ [31, 30, 29, 28] := List.mem_of_find?_eq_some h
  have hrange : 28 ≤ day ∧ day ≤ 31 := by
    simp only [List.mem_cons, List.not_mem_nil, or_false] at hmem
    omega
  obtain ⟨before, after, hsplit, hbefore⟩ := List.find?_eq_some_iff_append.mp h |>.2
  obtain ⟨p, hp⟩ := Option.isSome_iff_exists.mp hfound
  have hfields := PlainDateTime.fromFields_eq_ok.mp (toOption_eq_some.mp hp)
  rw [PlainDateTime.stored_eq hbyte (by dsimp only; omega)] at hfields
  have hdate : p.date = ⟨year, month, day⟩ := by
    have := congrArg (fun f : CivilFields => Date.mk f.year f.month f.day) hfields
    exact this
  have hvalid := p.date_valid
  rw [hdate] at hvalid
  have hmonth : 1 ≤ month ∧ month ≤ 12 := hvalid.month
  have hstep := @daysBeforeMonth_step year _ hmonth.1 hmonth.2
  have hlength : 28 ≤ daysInMonth year month ∧ daysInMonth year month ≤ 31 := by
    unfold daysInMonth
    omega
  by_contra hne
  have hlt : day < daysInMonth year month := lt_of_le_of_ne hvalid.day.2 hne
  -- the last day of the month was looked for before and is out of range
  have hlast : (PlainDateTime.fromFields
      ⟨year, month, daysInMonth year month, 0, 0, 0, 0⟩).toOption = none := by
    have hmemLast : daysInMonth year month ∈ before := by
      have hall : daysInMonth year month ∈ [31, 30, 29, 28] := by
        simp only [List.mem_cons, List.not_mem_nil, or_false]
        omega
      rw [hsplit] at hall
      rcases List.mem_append.mp hall with hbef | haft
      · exact hbef
      · exfalso
        have hdesc : (before ++ day :: after).Pairwise (· > ·) := hsplit ▸ (by decide)
        rcases List.mem_cons.mp haft with heq | htail
        · omega
        · have := (List.pairwise_cons.mp (List.pairwise_append.mp hdesc).2.1).1 _ htail
          omega
    simpa using hbefore _ hmemLast
  have hoverflow : ¬ InRange (Date.dayNumber ⟨year, month, daysInMonth year month⟩ *
      nanosPerDay) := by
    intro hin
    have hq : ∃ q, PlainDateTime.fromFields
        ⟨year, month, daysInMonth year month, 0, 0, 0, 0⟩ = .ok q := by
      refine ⟨⟨_, hin⟩, PlainDateTime.fromFields_eq_ok.mpr ?_⟩
      rw [PlainDateTime.stored_eq hbyte (by dsimp only; omega)]
      have hdays : Date.dayNumber ⟨year, month, daysInMonth year month⟩ * nanosPerDay /
          nanosPerDay = Date.dayNumber ⟨year, month, daysInMonth year month⟩ := by
        unfold nanosPerDay
        omega
      have htimes : Date.dayNumber ⟨year, month, daysInMonth year month⟩ * nanosPerDay %
          nanosPerDay = 0 := by
        unfold nanosPerDay
        omega
      have hlastValid : Date.Valid ⟨year, month, daysInMonth year month⟩ :=
        ⟨hmonth, by dsimp only; omega, le_rfl⟩
      unfold PlainDateTime.fields fieldsFromLocal
      rw [hdays, htimes, Date.ofDayNumber_dayNumber hlastValid]
      rfl
    obtain ⟨q, hq⟩ := hq
    rw [hq] at hlast
    cases hlast
  have hday := p.dayNumber_date
  rw [hdate] at hday
  have hbounds := p.dayNumber_bounds
  have hnumbers : ∀ d : Int, Date.dayNumber ⟨year, month, d⟩ =
      Date.dayNumber ⟨year, month, 1⟩ + d - 1 := by
    intro d
    unfold Date.dayNumber Date.dayOfYear
    dsimp only
    omega
  have hcover : (Date.ofDayNumber 106751).year = year ∧ (Date.ofDayNumber 106751).month = month := by
    rw [Date.ofDayNumber_month_iff hmonth]
    rw [hnumbers] at hday
    rw [hnumbers] at hoverflow
    unfold InRange nanosPerDay at hoverflow
    omega
  have hknown : Date.ofDayNumber 106751 = ⟨2262, 4, 11⟩ := by decide
  rw [hknown] at hcover
  obtain ⟨rfl, rfl⟩ := hcover
  have hfirst : Date.dayNumber ⟨2262, 4, 1⟩ = 106741 := by decide
  rw [hnumbers, hfirst] at hday
  omega

theorem resolvedMonthDayAllowed_iff {days : List Number} {allowed : Bool}
    (h : resolvedMonthDayAllowed days candidate = .ok allowed) :
    allowed = true ↔ ∃ value ∈ integers days, candidate.date.day =
      resolved (daysInMonth candidate.date.year candidate.date.month) value := by
  unfold resolvedMonthDayAllowed at h
  obtain ⟨r, hr, hallowed⟩ := bind_eq_ok.mp h
  obtain rfl := pure_eq_ok.mp hallowed
  refine mapM_any (fun value _ b hb => ?_) hr
  obtain ⟨day, hday, hb⟩ := bind_eq_ok.mp hb
  obtain rfl := pure_eq_ok.mp hb
  have hresolved : day = resolved (daysInMonth candidate.date.year candidate.date.month) value := by
    unfold resolvedMonthDay at hday
    by_cases hneg : value < 0
    · rw [if_pos hneg] at hday
      cases hwithin : daysInMonthWithin candidate.fields.year candidate.fields.month with
      | none =>
        rw [hwithin] at hday
        cases hday
      | some total =>
        rw [hwithin] at hday
        obtain rfl := pure_eq_ok.mp hday
        rw [daysInMonthWithin_eq candidate.month_byte hwithin]
        rfl
    · rw [if_neg hneg] at hday
      obtain rfl := pure_eq_ok.mp hday
      exact (if_neg hneg).symm
  rw [beq_iff_eq, hresolved]
  rfl

end Months

section YearDays

theorem dayOfYear_eq (candidate : PlainDateTime) :
    dayOfYear candidate = candidate.date.dayOfYear := by
  obtain ⟨hone, htwelve⟩ := candidate.date_valid.month
  unfold dayOfYear Date.dayOfYear
  rw [PlainDateTime.fields_day, PlainDateTime.fields_year, PlainDateTime.fields_month, add_comm]
  congr 1
  generalize candidate.date.month = month at *
  unfold monthLengths daysBeforeMonth
  interval_cases month <;> cases isLeapYear candidate.date.year <;> rfl

theorem resolvedYearDayAllowed_iff {days : List Number} :
    resolvedYearDayAllowed days candidate = true ↔ ∃ value ∈ integers days,
      candidate.date.dayOfYear = resolved (daysInYear candidate.date.year) value := by
  unfold resolvedYearDayAllowed
  rw [List.any_eq_true]
  simp only [beq_iff_eq, dayOfYear_eq, PlainDateTime.fields_year]

end YearDays

section Weeks

variable {weekStart : Day} {year : Int} {p q : PlainDateTime}

theorem toNumber_bounds (day : Day) : 1 ≤ day.toNumber ∧ day.toNumber ≤ 7 := by
  cases day <;> decide

theorem startOfWeek_eq_ok (h : startOfWeek p weekStart = .ok q) :
    q.dayNumber = p.dayNumber - weekdayOffsetFromWeekStart p.isoWeekday weekStart ∧
      q.timeOfDay = p.timeOfDay := by
  obtain ⟨hday, htime⟩ := PlainDateTime.addDays_eq_ok.mp h
  exact ⟨by omega, htime⟩

/-- The day of the week counted from the start of the week. -/
theorem weekdayOffset_eq (n : Int) (weekStart : Day) :
    weekdayOffsetFromWeekStart (Date.isoWeekday n) weekStart =
      (n + 3 - (weekStart.toNumber - 1)) % 7 := by
  have := toNumber_bounds weekStart
  unfold weekdayOffsetFromWeekStart Date.isoWeekday
  dsimp only
  split_ifs <;> omega

theorem weekOneStart_eq_ok (h : weekOneStart year weekStart dtstart = .ok q) :
    q.dayNumber = weekOne weekStart year ∧ q.timeOfDay = dtstart.timeOfDay := by
  unfold weekOneStart at h
  simp only [bind_eq_ok] at h
  obtain ⟨jan1, hjan1, start, hstart, h⟩ := h
  obtain ⟨hjanDay, hjanTime⟩ := required_first hjan1
  obtain ⟨hstartDay, hstartTime⟩ := startOfWeek_eq_ok hstart
  unfold PlainDateTime.isoWeekday at hstartDay h
  rw [hjanDay] at hstartDay h
  unfold weekOne
  dsimp only
  split_ifs at h ⊢ with hlate
  · obtain ⟨hday, htime⟩ := PlainDateTime.addDays_eq_ok.mp h
    exact ⟨by omega, htime.trans (hstartTime.trans hjanTime)⟩
  · obtain rfl := pure_eq_ok.mp h
    exact ⟨by omega, hstartTime.trans hjanTime⟩

/-- Weeks start on one day of the week. -/
theorem weekOne_mod (weekStart : Day) (year : Int) :
    (weekOne weekStart year + 3 - (weekStart.toNumber - 1)) % 7 = 0 := by
  unfold weekOne
  dsimp only
  rw [weekdayOffset_eq]
  split_ifs <;> omega

theorem weekOne_near (weekStart : Day) (year : Int) :
    Date.dayNumber ⟨year, 1, 1⟩ - 3 ≤ weekOne weekStart year ∧
      weekOne weekStart year ≤ Date.dayNumber ⟨year, 1, 1⟩ + 3 := by
  unfold weekOne
  dsimp only
  rw [weekdayOffset_eq]
  split_ifs <;> omega

theorem weekOne_lt (weekStart : Day) (year : Int) :
    weekOne weekStart year + 358 ≤ weekOne weekStart (year + 1) := by
  have hthis := weekOne_near weekStart year
  have hnext := weekOne_near weekStart (year + 1)
  rw [Date.dayNumber_first] at hthis hnext
  rw [daysBeforeYear_succ] at hnext
  unfold daysInYear at hnext
  split_ifs at hnext <;> omega

theorem compare_of_time (h : p.timeOfDay = q.timeOfDay) : p < q ↔ p.dayNumber < q.dayNumber := by
  rw [PlainDateTime.lt_iff, p.nanoseconds_eq, q.nanoseconds_eq, h]
  unfold nanosPerDay
  omega

theorem countWeeks_eq_ok {fuel : Nat} {weeks n : Int} (htime : p.timeOfDay = q.timeOfDay)
    (hle : p.dayNumber ≤ q.dayNumber) (hmod : (q.dayNumber - p.dayNumber) % 7 = 0)
    (h : countWeeks q fuel p weeks = .ok n) : n = weeks + (q.dayNumber - p.dayNumber) / 7 := by
  induction fuel generalizing p weeks with
  | zero => cases h
  | succ fuel ih =>
    rw [countWeeks] at h
    split_ifs at h with hbefore
    · obtain ⟨following, hfollowing, h⟩ := bind_eq_ok.mp h
      obtain ⟨hday, hfollowingTime⟩ := PlainDateTime.addDays_eq_ok.mp hfollowing
      have hlt := (compare_of_time htime).mp (PlainDateTime.compare_lt.mp hbefore)
      have := ih (hfollowingTime.trans htime) (by omega) (by omega) h
      omega
    · obtain rfl := pure_eq_ok.mp h
      have hnot : ¬ p.dayNumber < q.dayNumber := fun hlt =>
        hbefore (PlainDateTime.compare_lt.mpr ((compare_of_time htime).mpr hlt))
      omega

theorem weeksInWeekYear_eq_ok {n : Int} (h : weeksInWeekYear year weekStart dtstart = .ok n) :
    n = weeksOfYear weekStart year := by
  unfold weeksInWeekYear at h
  simp only [bind_eq_ok] at h
  obtain ⟨this, hthis, next, hnext, h⟩ := h
  obtain ⟨hthisDay, hthisTime⟩ := weekOneStart_eq_ok hthis
  obtain ⟨hnextDay, hnextTime⟩ := weekOneStart_eq_ok hnext
  have hgrows := weekOne_lt weekStart year
  have hmod := weekOne_mod weekStart year
  have hmod' := weekOne_mod weekStart (year + 1)
  have hcount := countWeeks_eq_ok (hthisTime.trans hnextTime.symm) (by omega) (by omega) h
  rw [hcount, hthisDay, hnextDay]
  unfold weeksOfYear
  omega

theorem numberWeek_eq_ok {fuel : Nat} {week n : Int} (htime : p.timeOfDay = q.timeOfDay)
    (hle : p.dayNumber ≤ q.dayNumber) (h : numberWeek q fuel p week = .ok n) :
    n = week + (q.dayNumber - p.dayNumber) / 7 := by
  induction fuel generalizing p week with
  | zero => cases h
  | succ fuel ih =>
    rw [numberWeek] at h
    obtain ⟨next, hnext, h⟩ := bind_eq_ok.mp h
    obtain ⟨hday, hnextTime⟩ := PlainDateTime.addDays_eq_ok.mp hnext
    have hcompare := compare_of_time (htime.symm.trans hnextTime.symm)
    split_ifs at h with hreached
    · have hnot : ¬ q.dayNumber < next.dayNumber := fun hlt =>
        absurd (PlainDateTime.compare_le.mp hreached) (not_le.mpr (hcompare.mpr hlt))
      have := ih (hnextTime.trans htime) (by omega) h
      omega
    · obtain rfl := pure_eq_ok.mp h
      have hlt : q.dayNumber < next.dayNumber := hcompare.mp
        (not_le.mp fun hnextLe => hreached (PlainDateTime.compare_le.mpr hnextLe))
      omega

theorem weekNumber_eq_ok {n : Int} (htime : candidate.timeOfDay = dtstart.timeOfDay)
    (h : weekNumber candidate weekStart dtstart = .ok n) :
    n = weekNumberOf candidate.date weekStart := by
  unfold weekNumber at h
  simp only [bind_eq_ok] at h
  obtain ⟨this, hthis, next, hnext, h⟩ := h
  obtain ⟨hthisDay, hthisTime⟩ := weekOneStart_eq_ok hthis
  obtain ⟨hnextDay, hnextTime⟩ := weekOneStart_eq_ok hnext
  rw [PlainDateTime.fields_year] at hthisDay hnextDay
  have hbefore := compare_of_time (htime.trans hthisTime.symm)
  have hafter := compare_of_time (htime.trans hnextTime.symm)
  unfold weekNumberOf
  rw [PlainDateTime.dayNumber_date]
  split_ifs at h with hearly hlate
  · rw [if_pos (by rw [← hthisDay]; exact hbefore.mp (PlainDateTime.compare_lt.mp hearly))]
    exact weeksInWeekYear_eq_ok h
  · rw [if_neg, if_pos]
    · exact (pure_eq_ok.mp h).symm
    · rw [← hnextDay]
      by_contra hlt
      exact absurd (PlainDateTime.compare_ge.mp hlate) (not_le.mpr (hafter.mpr (by omega)))
    · rw [← hthisDay]
      exact fun hlt => hearly (PlainDateTime.compare_lt.mpr (hbefore.mpr hlt))
  · have hfrom : ¬ candidate.dayNumber < this.dayNumber := fun hlt =>
      hearly (PlainDateTime.compare_lt.mpr (hbefore.mpr hlt))
    have hto : candidate.dayNumber < next.dayNumber := hafter.mp
      (not_le.mp fun hle => hlate (PlainDateTime.compare_ge.mpr hle))
    rw [if_neg (by rw [← hthisDay]; exact hfrom), if_neg (by omega)]
    obtain ⟨start, hstart, h⟩ := bind_eq_ok.mp h
    obtain ⟨hstartDay, hstartTime⟩ := startOfWeek_eq_ok hstart
    have hoffset := weekdayOffset_eq candidate.dayNumber weekStart
    have hmod := weekOne_mod weekStart candidate.date.year
    unfold PlainDateTime.isoWeekday at hstartDay
    have hnumber := numberWeek_eq_ok (hthisTime.trans (htime.symm.trans hstartTime.symm))
      (by omega) h
    omega

theorem resolvedWeekNoAllowed_iff {weeks : List Number} {allowed : Bool}
    (htime : candidate.timeOfDay = dtstart.timeOfDay)
    (h : resolvedWeekNoAllowed weeks candidate weekStart dtstart = .ok allowed) :
    allowed = true ↔ ∃ value ∈ integers weeks, weekNumberOf candidate.date weekStart =
      resolved (weeksOfYear weekStart candidate.date.year) value := by
  unfold resolvedWeekNoAllowed at h
  simp only [bind_eq_ok, pure_eq_ok] at h
  obtain ⟨total, htotal, number, hnumber, rfl⟩ := h
  rw [weeksInWeekYear_eq_ok htotal, weekNumber_eq_ok htime hnumber, List.any_eq_true]
  simp only [beq_iff_eq, PlainDateTime.fields_year]

end Weeks

section Ordinals

variable {weekday : Int} {p : PlainDateTime}

/-- How many of `count` days from day `first` on fall on a weekday. -/
def matchingDays (weekday first : Int) (count : Nat) : Int :=
  (count + 6 - (weekday - 4 - first) % 7) / 7

theorem matchingDays_succ (weekday first : Int) (hweekday : 1 ≤ weekday ∧ weekday ≤ 7)
    (count : Nat) : matchingDays weekday first (count + 1) =
      (if Date.isoWeekday first = weekday then 1 else 0) +
        matchingDays weekday (first + 1) count := by
  unfold matchingDays Date.isoWeekday
  push_cast
  split_ifs <;> omega

theorem countForward_eq_ok {count : Nat} {ordinal n : Int} (hweekday : 1 ≤ weekday ∧ weekday ≤ 7)
    (h : countForward weekday count p ordinal = .ok n) :
    n = ordinal + matchingDays weekday p.dayNumber count := by
  induction count generalizing p ordinal with
  | zero =>
    obtain rfl := pure_eq_ok.mp h
    unfold matchingDays
    omega
  | succ count ih =>
    rw [countForward] at h
    obtain ⟨next, hnext, h⟩ := bind_eq_ok.mp h
    obtain ⟨hday, -⟩ := PlainDateTime.addDays_eq_ok.mp hnext
    have := ih h
    rw [matchingDays_succ _ _ hweekday, this, hday]
    unfold PlainDateTime.isoWeekday
    split_ifs <;> omega

theorem countBackward_eq_ok {fuel : Nat} {year ordinal n : Int}
    (hweekday : p.isoWeekday = weekday) (hstart : Date.dayNumber ⟨year, 1, 1⟩ ≤ p.dayNumber)
    (h : countBackward weekday year fuel p ordinal = .ok n) :
    n = ordinal - (Date.dayNumber ⟨year, 1, 1⟩ + daysInYear year - p.dayNumber + 6) / 7 ∨
      (n = ordinal ∧ Date.dayNumber ⟨year, 1, 1⟩ + daysInYear year ≤ p.dayNumber) := by
  induction fuel generalizing p ordinal with
  | zero => cases h
  | succ fuel ih =>
    rw [countBackward, PlainDateTime.fields_year] at h
    have hyear : p.date.year = year ↔ _ := Date.ofDayNumber_year_iff
    split_ifs at h with hsame
    · have hend := (hyear.mp hsame).2
      obtain ⟨next, hnext, h⟩ := bind_eq_ok.mp h
      obtain ⟨hday, -⟩ := PlainDateTime.addDays_eq_ok.mp hnext
      have hnextWeekday : next.isoWeekday = weekday := by
        unfold PlainDateTime.isoWeekday Date.isoWeekday at hweekday ⊢
        omega
      rcases ih hnextWeekday (by omega) h with hn | ⟨hn, hpast⟩
      · omega
      · omega
    · obtain rfl := pure_eq_ok.mp h
      have : ¬ (Date.dayNumber ⟨year, 1, 1⟩ ≤ p.dayNumber ∧
          p.dayNumber < Date.dayNumber ⟨year, 1, 1⟩ + daysInYear year) :=
        fun hin => hsame (hyear.mpr hin)
      exact .inr ⟨rfl, by omega⟩

/-- The ordinal of a day within its year, from the start and from the end. -/
theorem yearOrdinals_eq_ok {ordinal reverseOrdinal : Int}
    (h : yearOrdinals candidate.isoWeekday candidate = .ok (ordinal, reverseOrdinal)) :
    ordinal = (candidate.date.dayOfYear - 1) / 7 + 1 ∧
      reverseOrdinal = -((daysInYear candidate.date.year - candidate.date.dayOfYear) / 7) := by
  unfold yearOrdinals at h
  simp only [bind_eq_ok, pure_eq_ok, Prod.mk.injEq] at h
  obtain ⟨first, hfirst, n, hn, remaining, hremaining, r, hr, rfl, rfl⟩ := h
  obtain ⟨hfirstDay, -⟩ := required_first hfirst
  rw [PlainDateTime.fields_year] at hfirstDay
  obtain ⟨hremainingDay, -⟩ := PlainDateTime.addDays_eq_ok.mp hremaining
  have hweekday : 1 ≤ candidate.isoWeekday ∧ candidate.isoWeekday ≤ 7 :=
    Date.isoWeekday_bounds candidate.dayNumber
  have hdayOfYear : candidate.date.dayOfYear =
      candidate.dayNumber - Date.dayNumber ⟨candidate.date.year, 1, 1⟩ + 1 :=
    Date.ofDayNumber_dayOfYear
  have hbounds := Date.dayOfYear_bounds candidate.date_valid
  rw [dayOfYear_eq] at hn
  constructor
  · rw [countForward_eq_ok hweekday hn, hfirstDay]
    unfold matchingDays PlainDateTime.isoWeekday Date.isoWeekday
    omega
  · have hsame : remaining.isoWeekday = candidate.isoWeekday := by
      unfold PlainDateTime.isoWeekday Date.isoWeekday
      omega
    rw [PlainDateTime.fields_year] at hr
    rcases countBackward_eq_ok hsame (by omega) hr with hr | ⟨hr, hpast⟩
    · omega
    · omega

/-- Counting the days of a month that fall on a weekday. -/
theorem countInMonth_eq_ok {days : List Int} {n : Int}
    (hbytes : ∀ day ∈ days, 0 ≤ day ∧ day < 256) (h : countInMonth weekday candidate days = .ok n) :
    n = days.countP fun day => decide (Date.isoWeekday
      (Date.dayNumber ⟨candidate.date.year, candidate.date.month, 1⟩ + day - 1) = weekday) := by
  unfold countInMonth at h
  simp only [bind_eq_ok, pure_eq_ok, mapM_eq_ok] at h
  obtain ⟨matching, hmatching, rfl⟩ := h
  congr 1
  induction hmatching with
  | nil => rfl
  | @cons day found days matching hday _ ih =>
    obtain ⟨current, hcurrent, rfl⟩ := hday
    obtain ⟨hbyte, hbytes⟩ := List.forall_mem_cons.mp hbytes
    obtain ⟨hdate, -⟩ := (buildGeneratedCandidate_eq_some candidate.month_byte hbyte).mp
      (required_eq_ok.mp hcurrent)
    have hnumber : current.dayNumber =
        Date.dayNumber ⟨candidate.date.year, candidate.date.month, 1⟩ + day - 1 := by
      rw [← current.dayNumber_date, hdate]
      unfold Date.dayNumber Date.dayOfYear
      dsimp only [PlainDateTime.fields_year, PlainDateTime.fields_month]
      omega
    rw [List.count_cons, List.countP_cons, ih hbytes, PlainDateTime.isoWeekday, hnumber]
    simp only [beq_iff_eq, decide_eq_true_eq]

theorem countP_range_ascending (first : Int) (hweekday : 1 ≤ weekday ∧ weekday ≤ 7) (count : Nat) :
    (((List.range count).countP fun i : Nat =>
      decide (Date.isoWeekday (first + i) = weekday) : Nat) : Int) =
        matchingDays weekday first count := by
  induction count with
  | zero =>
    unfold matchingDays
    rw [List.range_zero, List.countP_nil]
    omega
  | succ count ih =>
    rw [List.range_succ, List.countP_append, List.countP_singleton]
    push_cast
    rw [ih]
    simp only [decide_eq_true_eq]
    unfold matchingDays Date.isoWeekday
    push_cast
    split_ifs <;> omega

theorem countP_range_descending (last : Int) (hweekday : 1 ≤ weekday ∧ weekday ≤ 7) (count : Nat) :
    (((List.range count).countP fun i : Nat =>
      decide (Date.isoWeekday (last - i) = weekday) : Nat) : Int) =
        (count + 6 - (last + 4 - weekday) % 7) / 7 := by
  induction count with
  | zero =>
    rw [List.range_zero, List.countP_nil]
    omega
  | succ count ih =>
    rw [List.range_succ, List.countP_append, List.countP_singleton]
    push_cast
    rw [ih]
    simp only [decide_eq_true_eq]
    unfold Date.isoWeekday
    split_ifs <;> omega

/-- The ordinal of a day within its month, from the start and from the end. -/
theorem monthOrdinals_eq_ok {ordinal reverseOrdinal : Int}
    (h : monthOrdinals candidate.isoWeekday candidate = .ok (ordinal, reverseOrdinal)) :
    ordinal = (candidate.date.day - 1) / 7 + 1 ∧ reverseOrdinal =
      -((daysInMonth candidate.date.year candidate.date.month - candidate.date.day) / 7) := by
  unfold monthOrdinals at h
  cases hwithin : daysInMonthWithin candidate.fields.year candidate.fields.month with
  | none =>
    rw [hwithin] at h
    simp [bind_eq_ok] at h
  | some last =>
    rw [hwithin] at h
    simp only [bind_eq_ok, pure_eq_ok, Prod.mk.injEq, pure_bind] at h
    obtain ⟨n, hn, following, hfollowing, rfl, rfl⟩ := h
    have hlast : last = daysInMonth candidate.date.year candidate.date.month :=
      daysInMonthWithin_eq candidate.month_byte hwithin
    have hday : candidate.date.day = candidate.dayNumber -
        Date.dayNumber ⟨candidate.date.year, candidate.date.month, 1⟩ + 1 := Date.ofDayNumber_day
    have hbounds := candidate.date_valid.day
    have hweekday : 1 ≤ candidate.isoWeekday ∧ candidate.isoWeekday ≤ 7 :=
      Date.isoWeekday_bounds candidate.dayNumber
    rw [PlainDateTime.fields_day] at hn hfollowing
    have hlength := candidate.daysInMonth_byte
    have hbytes : ∀ day ∈ (List.range candidate.date.day.toNat).map fun n : Nat => (n : Int) + 1,
        0 ≤ day ∧ day < 256 := by
      intro day hmem
      obtain ⟨i, hi, rfl⟩ := List.mem_map.mp hmem
      have := List.mem_range.mp hi
      omega
    have hbytes' : ∀ day ∈ (List.range (last.toNat - candidate.date.day.toNat)).map
        fun n : Nat => last - (n : Int), 0 ≤ day ∧ day < 256 := by
      intro day hmem
      obtain ⟨i, hi, rfl⟩ := List.mem_map.mp hmem
      have := List.mem_range.mp hi
      omega
    constructor
    · rw [countInMonth_eq_ok hbytes hn, List.countP_map]
      have hcount := countP_range_ascending
        (Date.dayNumber ⟨candidate.date.year, candidate.date.month, 1⟩) hweekday
        candidate.date.day.toNat
      have hsame : (fun i : Nat => decide (Date.isoWeekday
          (Date.dayNumber ⟨candidate.date.year, candidate.date.month, 1⟩ + i) =
            candidate.isoWeekday)) = (fun day : Int => decide (Date.isoWeekday
          (Date.dayNumber ⟨candidate.date.year, candidate.date.month, 1⟩ + day - 1) =
            candidate.isoWeekday)) ∘ fun n : Nat => (n : Int) + 1 := by
        funext i
        simp only [Function.comp_apply]
        congr 3
        omega
      rw [← hsame, hcount]
      unfold matchingDays PlainDateTime.isoWeekday Date.isoWeekday
      omega
    · rw [countInMonth_eq_ok hbytes' hfollowing, List.countP_map]
      have hcount := countP_range_descending
        (Date.dayNumber ⟨candidate.date.year, candidate.date.month, 1⟩ + last - 1) hweekday
        (last.toNat - candidate.date.day.toNat)
      have hsame : (fun i : Nat => decide (Date.isoWeekday
          (Date.dayNumber ⟨candidate.date.year, candidate.date.month, 1⟩ + last - 1 - i) =
            candidate.isoWeekday)) = (fun day : Int => decide (Date.isoWeekday
          (Date.dayNumber ⟨candidate.date.year, candidate.date.month, 1⟩ + day - 1) =
            candidate.isoWeekday)) ∘ fun n : Nat => last - (n : Int) := by
        funext i
        simp only [Function.comp_apply]
        congr 3
        omega
      rw [← hsame, hcount]
      unfold PlainDateTime.isoWeekday Date.isoWeekday
      omega

theorem ordinalByDayAllowed_iff {weekday : Day} {entryOrdinal : Int} {yearly allowed : Bool}
    (h : ordinalByDayAllowed weekday entryOrdinal candidate yearly = .ok allowed) :
    allowed = true ↔ candidate.isoWeekday = weekday.toNumber ∧
      if yearly then
        IsNth candidate.date.dayOfYear (daysInYear candidate.date.year) entryOrdinal
      else IsNth candidate.date.day
        (daysInMonth candidate.date.year candidate.date.month) entryOrdinal := by
  unfold ordinalByDayAllowed at h
  by_cases hweekday : candidate.isoWeekday = weekday.toNumber
  · rw [if_neg (not_not.mpr hweekday), ← hweekday] at h
    obtain ⟨⟨ordinal, reverseOrdinal⟩, hordinals, h⟩ := bind_eq_ok.mp h
    obtain rfl := pure_eq_ok.mp h
    unfold IsNth
    cases yearly with
    | true =>
      obtain ⟨rfl, rfl⟩ := yearOrdinals_eq_ok hordinals
      simp only [hweekday, true_and, if_true]
      split_ifs with hpos
      · rw [beq_iff_eq]
      · rw [beq_iff_eq]
        omega
    | false =>
      obtain ⟨rfl, rfl⟩ := monthOrdinals_eq_ok hordinals
      simp only [hweekday, true_and, Bool.false_eq_true, if_false]
      split_ifs with hpos
      · rw [beq_iff_eq]
      · rw [beq_iff_eq]
        omega
  · rw [if_pos hweekday] at h
    obtain rfl := pure_eq_ok.mp h
    exact iff_of_false Bool.false_ne_true fun h => hweekday h.1

end Ordinals

end Space2.Recurrence
