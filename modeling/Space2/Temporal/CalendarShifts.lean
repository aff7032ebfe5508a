import Space2.Temporal.MachineDateTimes

/-!
# Calendar shifts

A date-time is moved by years and months first, to the same day of the month reached or to its last
day, and by weeks and days after that.
-/
namespace Space2.Temporal
open Base Signed

namespace Checked

def calendarOverflow : String := "temporal calendar arithmetic overflow"

section Source

def floorDivide (value divisor : Int64) : Machine Int64 := do
  let quotient ← div value divisor
  let remainder ← rem value divisor
  if remainder < 0 then sub quotient 1 else pure quotient

/-- The date in the month of an index, on the day given or on the last of the month. -/
def dateOfMonthIndex (targetMonthIndex : Int64) (day : Int) : Machine Date := do
  let targetYear ← floorDivide targetMonthIndex 12
  let yearStart ← checkedMultiply targetYear 12
  let targetMonthZeroBased ← checkedSubtract targetMonthIndex yearStart
  ensure (¬ (targetYear.toInt < -32767 ∨ 32767 < targetYear.toInt)) (Fault.thrown calendarOverflow)
  let maxDay := daysInMonth targetYear.toInt (targetMonthZeroBased.toInt + 1)
  let result : Date := ⟨targetYear.toInt, targetMonthZeroBased.toInt + 1,
    if maxDay < day then maxDay else day⟩
  ensure result.Valid (Fault.thrown calendarOverflow)
  pure result

def addCalendarMonths (fields : CivilFields) (years months : Int64) : Machine Date := do
  let yearMonths ← checkedMultiply years 12
  let monthShift ← checkedAdd yearMonths months
  let currentYears ← checkedMultiply (.ofInt fields.year) 12
  let currentMonthIndex ← checkedAdd currentYears (.ofInt (fields.month - 1))
  let targetMonthIndex ← checkedAdd currentMonthIndex monthShift
  dateOfMonthIndex targetMonthIndex fields.day

/-- The part of `add_calendar` after the date is found. -/
def moveDays (calendarDate : Date) (fields : CivilFields) (weeks days : Int64) : Machine Int64 := do
  let weekDays ← checkedMultiply weeks 7
  let dayShift ← checkedAdd weekDays days
  let finalDay ← checkedAdd (.ofInt calendarDate.dayNumber) dayShift
  let timeNanoseconds ← timeOfFields fields
  nanosFromDayTime finalDay timeNanoseconds outsideLocalRange

def addCalendar (value years months weeks days : Int64) : Machine Int64 := do
  let fields ← fieldsFromLocal value
  let calendarDate ← addCalendarMonths fields years months
  moveDays calendarDate fields weeks days

end Source

section Months
variable {n : Int} {index : Int64} {day : Int} {date : Date}

def monthIndex (date : Date) : Int := date.year * 12 + (date.month - 1)

/-- The date moved by months. -/
def shiftedDate (date : Date) (shift : Int) : Date :=
  let index := monthIndex date + shift
  ⟨index / 12, index % 12 + 1, min date.day (daysInMonth (index / 12) (index % 12 + 1))⟩

theorem bind_defined {α β : Type} {x : Machine α} {f : α → Machine β}
    (hx : x ≠ .error .undefined) (hf : ∀ a, f a ≠ .error .undefined) :
    (x >>= f) ≠ .error .undefined := by
  cases x with
  | error e => exact fun h => hx (congrArg Except.error (Except.error.inj h))
  | ok a => exact hf a

theorem ensure_defined {c : Prop} [Decidable c] {message : String} :
    ensure c (Fault.thrown message) ≠ .error .undefined := by
  unfold ensure
  split_ifs
  · exact fun h => nomatch h
  · exact fun h => nomatch h

theorem floorDivide_eq (index : Int64) : floorDivide index 12 = .ok (.ofInt (index.toInt / 12)) := by
  obtain ⟨hlow, hhigh⟩ := fits_toInt index
  have htwelve : (12 : Int64).toInt = 12 := by decide
  have hdiv := @div_of_pos index 12 (by decide)
  have hrem := @rem_of_pos index 12 (by decide)
  have hsum := Int.mul_tdiv_add_tmod index.toInt 12
  have hbound := Int.tmod_lt_of_pos index.toInt (show (0 : Int) < 12 by decide)
  have hbound' := Int.lt_tmod_of_pos index.toInt (show (0 : Int) < 12 by decide)
  rw [htwelve] at hdiv hrem
  unfold floorDivide
  rw [hdiv, ok_bind, hrem, ok_bind]
  generalize index.toInt.tdiv 12 = quotient at *
  generalize hremainder : index.toInt.tmod 12 = remainder at *
  have hsign : Int64.ofInt remainder < 0 ↔ remainder < 0 := by
    rw [neg_iff, toInt_ofInt (fits_of_bounds (by omega) (by omega))]
  have hnonneg : 0 ≤ index.toInt → 0 ≤ remainder := fun h => by
    rw [← hremainder]
    exact Int.tmod_nonneg 12 h
  have hnonpos : index.toInt ≤ 0 → remainder ≤ 0 := fun h => by
    have hopposite := Int.tmod_nonneg 12 (show 0 ≤ -index.toInt by omega)
    rw [Int.neg_tmod, hremainder] at hopposite
    omega
  by_cases hneg : remainder < 0
  · have hfloor : quotient - 1 = index.toInt / 12 := by omega
    rw [if_pos (hsign.mpr hneg), ← hfloor]
    change sub (.ofInt quotient) (.ofInt 1) = _
    exact sub_ofInt (fits_of_bounds (by omega) (by omega)) (by decide)
      (fits_of_bounds (by omega) (by omega))
  · have hfloor : quotient = index.toInt / 12 := by omega
    rw [if_neg (hsign.not.mpr hneg), ← hfloor]
    rfl

theorem valid_of_month {year month : Int} (hmonth : 1 ≤ month ∧ month ≤ 12) (hday : 1 ≤ day) :
    Date.Valid ⟨year, month, min day (daysInMonth year month)⟩ := by
  have hstep := @daysBeforeMonth_step year _ hmonth.1 hmonth.2
  have hlength : 28 ≤ daysInMonth year month := by
    unfold daysInMonth
    omega
  exact ⟨hmonth, by dsimp only; omega, by dsimp only; omega⟩

theorem dateOfMonthIndex_eq_ok (hday : 1 ≤ day) :
    dateOfMonthIndex index day = .ok date ↔
      (-32767 ≤ index.toInt / 12 ∧ index.toInt / 12 ≤ 32767) ∧
        date = ⟨index.toInt / 12, index.toInt % 12 + 1,
          min day (daysInMonth (index.toInt / 12) (index.toInt % 12 + 1))⟩ := by
  obtain ⟨hlow, hhigh⟩ := fits_toInt index
  have hyear : (Int64.ofInt (index.toInt / 12)).toInt = index.toInt / 12 :=
    toInt_ofInt (fits_of_bounds (by omega) (by omega))
  have htwelve : (12 : Int64).toInt = 12 := by decide
  have hmin : ∀ last : Int, (if last < day then last else day) = min day last := by
    intro last
    split_ifs <;> omega
  have hvalid : Date.Valid ⟨index.toInt / 12, index.toInt % 12 + 1,
      min day (daysInMonth (index.toInt / 12) (index.toInt % 12 + 1))⟩ :=
    valid_of_month (by omega) hday
  unfold dateOfMonthIndex
  rw [floorDivide_eq, ok_bind]
  simp only [bind_eq_ok, ensure_eq_ok, pure_eq_ok, checkedMultiply_eq, checkedSubtract_eq,
    orThrow_eq_ok, hyear, htwelve, hmin, not_or, not_lt]
  constructor
  · rintro ⟨start, hstart, month, hmonth, -, hbounds, -, -, rfl⟩
    have hrest : month.toInt = index.toInt % 12 := by omega
    rw [hrest]
    exact ⟨hbounds, rfl⟩
  · rintro ⟨hbounds, rfl⟩
    have hstart : (Int64.ofInt (index.toInt / 12 * 12)).toInt = index.toInt / 12 * 12 :=
      toInt_ofInt (fits_of_bounds (by omega) (by omega))
    have hmonth : (Int64.ofInt (index.toInt % 12)).toInt = index.toInt % 12 :=
      toInt_ofInt (fits_of_bounds (by omega) (by omega))
    refine ⟨_, hstart, .ofInt (index.toInt % 12), ?_, (), hbounds, (), ?_, ?_⟩
    · rw [hmonth, hstart]
      omega
    · rwa [hmonth]
    · rw [hmonth]

theorem dateOfMonthIndex_defined (index : Int64) (day : Int) :
    dateOfMonthIndex index day ≠ .error .undefined := by
  unfold dateOfMonthIndex
  rw [floorDivide_eq, ok_bind]
  simp only [checkedMultiply_eq, checkedSubtract_eq]
  refine bind_defined orThrow_defined fun _ => bind_defined orThrow_defined fun _ =>
    bind_defined ensure_defined fun _ => bind_defined ensure_defined fun _ => ?_
  intro h
  cases h

/-- Only the last sum of the months can throw. -/
theorem addCalendarMonths_eq (p : PlainDateTime) (years months : Int64) :
    addCalendarMonths p.fields years months =
      orThrow (years.toInt * 12) overflow >>= fun yearMonths =>
      orThrow (yearMonths.toInt + months.toInt) overflow >>= fun monthShift =>
      orThrow (monthIndex p.date + monthShift.toInt) overflow >>= fun target =>
      dateOfMonthIndex target p.date.day := by
  obtain ⟨hlow, hhigh⟩ := p.year_bounds
  obtain ⟨hone, htwelve⟩ := p.date_valid.month
  have hyear : Fits p.date.year := fits_of_bounds (by omega) (by omega)
  have hmonth : Fits (p.date.month - 1) := fits_of_bounds (by omega) (by omega)
  have hindex : Fits (monthIndex p.date) := by
    unfold monthIndex
    exact fits_of_bounds (by omega) (by omega)
  unfold addCalendarMonths
  rw [checkedMultiply_eq]
  refine bind_congr fun yearMonths => ?_
  rw [checkedAdd_eq]
  refine bind_congr fun monthShift => ?_
  change (checkedMultiply (.ofInt p.date.year) (.ofInt 12) >>= fun currentYears =>
    checkedAdd currentYears (.ofInt (p.date.month - 1)) >>= fun current =>
    checkedAdd current monthShift >>= fun target => dateOfMonthIndex target p.date.day) = _
  rw [checkedMultiply_ofInt hyear (by decide) (fits_of_bounds (by omega) (by omega)), ok_bind,
    checkedAdd_ofInt (fits_of_bounds (by omega) (by omega)) hmonth hindex, ok_bind, checkedAdd_eq]
  have hcurrent : (Int64.ofInt (p.date.year * 12 + (p.date.month - 1))).toInt =
      monthIndex p.date := toInt_ofInt hindex
  rw [hcurrent]

end Months

section Shifts
variable {value : Int64}

theorem addCalendarMonths_defined (p : PlainDateTime) (years months : Int64) :
    addCalendarMonths p.fields years months ≠ .error .undefined := by
  rw [addCalendarMonths_eq]
  exact bind_defined orThrow_defined fun _ => bind_defined orThrow_defined fun _ =>
    bind_defined orThrow_defined fun _ => dateOfMonthIndex_defined _ _

theorem moveDays_eq (p : PlainDateTime) (date : Date) (weeks days : Int64) :
    moveDays date p.fields weeks days =
      orThrow (weeks.toInt * 7) overflow >>= fun weekDays =>
      orThrow (weekDays.toInt + days.toInt) overflow >>= fun dayShift =>
      orThrow ((Int64.ofInt date.dayNumber).toInt + dayShift.toInt) overflow >>= fun finalDay =>
      orThrow (finalDay.toInt * nanosPerDay + p.timeOfDay) outsideLocalRange := by
  have htime := p.timeOfDay_bounds
  have hfits : Fits p.timeOfDay := by
    unfold nanosPerDay at htime
    exact fits_of_bounds (by omega) (by omega)
  unfold moveDays
  rw [checkedMultiply_eq]
  refine bind_congr fun weekDays => ?_
  rw [checkedAdd_eq]
  refine bind_congr fun dayShift => ?_
  rw [checkedAdd_eq]
  refine bind_congr fun finalDay => ?_
  rw [timeOfFields_eq p.time_fits, ok_bind, p.timeOfDay_fields,
    nanosFromDayTime_of_time (by rwa [toInt_ofInt hfits]), toInt_ofInt hfits]

/-- The totals that the shift goes through are integers of 64 bits, and the year reached is one that
dates have. -/
structure WithinLimits (date : Date) (years months weeks days : Int64) : Prop where
  yearMonths : Fits (years.toInt * 12)
  monthShift : Fits (years.toInt * 12 + months.toInt)
  year : -32767 ≤ (shiftedDate date (years.toInt * 12 + months.toInt)).year ∧
    (shiftedDate date (years.toInt * 12 + months.toInt)).year ≤ 32767
  weekDays : Fits (weeks.toInt * 7)
  dayShift : Fits (weeks.toInt * 7 + days.toInt)

/-- The count after the shift. -/
def shiftedCount (p : PlainDateTime) (years months weeks days : Int64) : Int :=
  ((shiftedDate p.date (years.toInt * 12 + months.toInt)).dayNumber +
    (weeks.toInt * 7 + days.toInt)) * nanosPerDay + p.timeOfDay

/-- The shift is defined, and gives the date-time meant when it is within the limits. -/
structure Shifts (value years months weeks days : Int64) : Prop where
  defined : addCalendar value years months weeks days ≠ .error .undefined
  returns : ∀ result, addCalendar value years months weeks days = .ok result ↔
    WithinLimits (plain value).date years months weeks days ∧
      result.toInt = shiftedCount (plain value) years months weeks days

theorem addCalendar_eq (h : StartsInRange value) (years months weeks days : Int64) :
    addCalendar value years months weeks days =
      addCalendarMonths (plain value).fields years months >>= fun date =>
        moveDays date (plain value).fields weeks days := by
  unfold addCalendar
  rw [fieldsFromLocal_eq h]
  rfl

theorem addCalendar_undefined (h : ¬ StartsInRange value) (years months weeks days : Int64) :
    addCalendar value years months weeks days = .error .undefined := by
  unfold addCalendar
  rw [fieldsFromLocal_undefined h]
  rfl

theorem moveDays_defined (p : PlainDateTime) (date : Date) (weeks days : Int64) :
    moveDays date p.fields weeks days ≠ .error .undefined := by
  rw [moveDays_eq]
  exact bind_defined orThrow_defined fun _ => bind_defined orThrow_defined fun _ =>
    bind_defined orThrow_defined fun _ => orThrow_defined

theorem addCalendarMonths_eq_ok {p : PlainDateTime} {years months : Int64} {date : Date} :
    addCalendarMonths p.fields years months = .ok date ↔
      (Fits (years.toInt * 12) ∧ Fits (years.toInt * 12 + months.toInt) ∧
        -32767 ≤ (shiftedDate p.date (years.toInt * 12 + months.toInt)).year ∧
        (shiftedDate p.date (years.toInt * 12 + months.toInt)).year ≤ 32767) ∧
        date = shiftedDate p.date (years.toInt * 12 + months.toInt) := by
  rw [addCalendarMonths_eq]
  simp only [bind_eq_ok, orThrow_eq_ok, dateOfMonthIndex_eq_ok p.date_valid.day.1]
  constructor
  · rintro ⟨yearMonths, hyears, monthShift, hshift, target, htarget, hbounds, rfl⟩
    rw [hyears] at hshift
    rw [hshift] at htarget
    rw [htarget] at hbounds ⊢
    exact ⟨⟨hyears ▸ fits_toInt _, hshift ▸ fits_toInt _, hbounds⟩, rfl⟩
  · rintro ⟨⟨hyears, hshift, hbounds⟩, rfl⟩
    have htarget : Fits (monthIndex p.date + (years.toInt * 12 + months.toInt)) := by
      have hlow := hbounds.1
      have hhigh := hbounds.2
      unfold shiftedDate at hlow hhigh
      dsimp only at hlow hhigh
      exact fits_of_bounds (by omega) (by omega)
    refine ⟨_, toInt_ofInt hyears, .ofInt (years.toInt * 12 + months.toInt), ?_,
      .ofInt (monthIndex p.date + (years.toInt * 12 + months.toInt)), ?_, ?_⟩
    · rw [toInt_ofInt hyears, toInt_ofInt hshift]
    · rw [toInt_ofInt hshift, toInt_ofInt htarget]
    · rw [toInt_ofInt htarget]
      exact ⟨hbounds, rfl⟩

theorem shiftedDate_valid {date : Date} (h : date.Valid) (shift : Int) :
    (shiftedDate date shift).Valid :=
  valid_of_month (by omega) h.day.1

theorem moveDays_eq_ok {p : PlainDateTime} {date : Date} {weeks days result : Int64}
    (hvalid : date.Valid) (hyear : -32767 ≤ date.year ∧ date.year ≤ 32767) :
    moveDays date p.fields weeks days = .ok result ↔
      (Fits (weeks.toInt * 7) ∧ Fits (weeks.toInt * 7 + days.toInt)) ∧
        result.toInt = (date.dayNumber + (weeks.toInt * 7 + days.toInt)) * nanosPerDay +
          p.timeOfDay := by
  have hsmall := dayNumber_small hvalid hyear
  have hday : (Int64.ofInt date.dayNumber).toInt = date.dayNumber :=
    toInt_ofInt (fits_of_bounds (by omega) (by omega))
  rw [moveDays_eq, hday]
  simp only [bind_eq_ok, orThrow_eq_ok]
  constructor
  · rintro ⟨weekDays, hweeks, dayShift, hshift, finalDay, hfinal, hresult⟩
    rw [hweeks] at hshift
    rw [hshift] at hfinal
    rw [hfinal] at hresult
    exact ⟨⟨hweeks ▸ fits_toInt _, hshift ▸ fits_toInt _⟩, hresult⟩
  · rintro ⟨⟨hweeks, hshift⟩, hresult⟩
    have hfinal : Fits (date.dayNumber + (weeks.toInt * 7 + days.toInt)) := by
      have htime := p.timeOfDay_bounds
      obtain ⟨hlow, hhigh⟩ := fits_toInt result
      unfold nanosPerDay at hresult htime
      exact fits_of_bounds (by omega) (by omega)
    refine ⟨_, toInt_ofInt hweeks, .ofInt (weeks.toInt * 7 + days.toInt), ?_,
      .ofInt (date.dayNumber + (weeks.toInt * 7 + days.toInt)), ?_, ?_⟩
    · rw [toInt_ofInt hweeks, toInt_ofInt hshift]
    · rw [toInt_ofInt hshift, toInt_ofInt hfinal]
    · rw [toInt_ofInt hfinal]
      exact hresult

theorem shifts_of_start (h : StartsInRange value) (years months weeks days : Int64) :
    Shifts value years months weeks days := by
  have hvalid := (plain value).date_valid
  refine ⟨?_, fun result => ?_⟩
  · rw [addCalendar_eq h]
    exact bind_defined (addCalendarMonths_defined _ _ _) fun date => moveDays_defined _ _ _ _
  · rw [addCalendar_eq h, bind_eq_ok]
    constructor
    · rintro ⟨date, hdate, hmoved⟩
      obtain ⟨⟨hyears, hmonths, hyear⟩, rfl⟩ := addCalendarMonths_eq_ok.mp hdate
      obtain ⟨⟨hweeks, hdays⟩, hresult⟩ :=
        (moveDays_eq_ok (shiftedDate_valid hvalid _) hyear).mp hmoved
      exact ⟨⟨hyears, hmonths, hyear, hweeks, hdays⟩, hresult⟩
    · rintro ⟨⟨hyears, hmonths, hyear, hweeks, hdays⟩, hresult⟩
      refine ⟨_, addCalendarMonths_eq_ok.mpr ⟨⟨hyears, hmonths, hyear⟩, rfl⟩, ?_⟩
      exact (moveDays_eq_ok (shiftedDate_valid hvalid _) hyear).mpr ⟨⟨hweeks, hdays⟩, hresult⟩

/-- Months alone: the result depends on the month reached, the day and the time. -/
theorem addCalendar_months (h : StartsInRange value) (months : Int64) :
    addCalendar value 0 months 0 0 =
      orThrow (monthIndex (plain value).date + months.toInt) overflow >>= fun target =>
      dateOfMonthIndex target (plain value).date.day >>= fun date =>
        moveDays date (plain value).fields 0 0 := by
  have hyears : orThrow ((0 : Int64).toInt * 12) overflow = .ok 0 := by decide
  have hshift : orThrow ((0 : Int64).toInt + months.toInt) overflow = .ok months := by
    refine orThrow_eq_ok.mpr ?_
    rw [Int64.toInt_zero, zero_add]
  rw [addCalendar_eq h, addCalendarMonths_eq, hyears, ok_bind, hshift, ok_bind, bind_assoc]

theorem monthIndex_shiftedDate (date : Date) (shift : Int) :
    monthIndex (shiftedDate date shift) = monthIndex date + shift := by
  unfold shiftedDate monthIndex
  dsimp only
  omega

/-- Where a shift by months leads. -/
theorem addCalendar_months_eq_ok {months first : Int64} (h : StartsInRange value)
    (hfirst : addCalendar value 0 months 0 0 = .ok first) :
    (plain first).date = shiftedDate (plain value).date months.toInt ∧
      (plain first).timeOfDay = (plain value).timeOfDay := by
  obtain ⟨-, hcount⟩ := ((shifts_of_start h 0 months 0 0).returns first).mp hfirst
  have htime := (plain value).timeOfDay_bounds
  have hmonths : (0 : Int64).toInt * 12 + months.toInt = months.toInt := by
    rw [Int64.toInt_zero]
    omega
  unfold shiftedCount at hcount
  rw [hmonths, Int64.toInt_zero] at hcount
  have hday : (plain first).dayNumber =
      (shiftedDate (plain value).date months.toInt).dayNumber := by
    change first.toInt / nanosPerDay = _
    rw [hcount]
    unfold nanosPerDay at *
    omega
  have hvalid := shiftedDate_valid (plain value).date_valid months.toInt
  refine ⟨(PlainDateTime.date_eq_iff hvalid).mpr hday, ?_⟩
  change first.toInt % nanosPerDay = _
  rw [hcount]
  unfold nanosPerDay at *
  omega

end Shifts

/-- A shift is defined and right exactly when the start of the day shifted is a count, and two
shifts by months that keep the day agree with one exactly when the date-time between them is such
a date-time. -/
theorem calendar_shifts (value years months weeks days : Int64) :
    (Shifts value years months weeks days ↔ StartsInRange value) ∧
    ∀ a b c first : Int64, c.toInt = a.toInt + b.toInt →
      addCalendar value 0 a 0 0 = .ok first →
      (plain first).date.day = (plain value).date.day →
      (addCalendar first 0 b 0 0 = addCalendar value 0 c 0 0 ↔ StartsInRange first) := by
  refine ⟨⟨fun h => ?_, fun h => shifts_of_start h years months weeks days⟩, ?_⟩
  · by_contra hstart
    exact h.defined (addCalendar_undefined hstart years months weeks days)
  intro a b c first hsum hfirst hday
  have hstart : StartsInRange value := by
    by_contra hnot
    rw [addCalendar_undefined hnot] at hfirst
    cases hfirst
  obtain ⟨hdate, htime⟩ := addCalendar_months_eq_ok hstart hfirst
  constructor
  · intro hsame
    by_contra hnot
    rw [addCalendar_undefined hnot] at hsame
    exact (shifts_of_start hstart 0 c 0 0).defined hsame.symm
  · intro hin
    have hindex : monthIndex (plain first).date + b.toInt =
        monthIndex (plain value).date + c.toInt := by
      rw [hdate, monthIndex_shiftedDate, hsum]
      omega
    rw [addCalendar_months hin, addCalendar_months hstart, hindex, hday]
    refine bind_congr fun target => bind_congr fun date => ?_
    rw [moveDays_eq, moveDays_eq, htime]

/-- The first date-time of all is not shifted, not even by nothing. -/
theorem first_count_not_shifted :
    ¬ ∀ value years months weeks days, Shifts value years months weeks days := by
  intro h
  exact (h minInt64 0 0 0 0).defined (addCalendar_undefined (by decide) 0 0 0 0)

end Checked

end Space2.Temporal
