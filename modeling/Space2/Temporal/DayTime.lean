import Space2.Temporal.PlainDateTime
import Mathlib.Order.Basic

/-!
# Days and times of day

A date-time is a day and a time within it. The functions that build date-times are read as
statements about the day and the time of the result.
-/
namespace Space2.Temporal
open Base

/-- The fields with the month and the day as they are stored. -/
def CivilFields.stored (fields : CivilFields) : CivilFields :=
  { fields with month := byte fields.month, day := byte fields.day }

namespace PlainDateTime

instance : LinearOrder PlainDateTime :=
  LinearOrder.lift' nanoseconds fun _ _ h => nanoseconds_injective h

variable {p q : PlainDateTime}

theorem le_iff : p ≤ q ↔ p.nanoseconds ≤ q.nanoseconds := Iff.rfl

theorem lt_iff : p < q ↔ p.nanoseconds < q.nanoseconds := Iff.rfl

theorem compare_lt : p.compare q < 0 ↔ p < q := compareInt64_neg

theorem compare_gt : p.compare q > 0 ↔ q < p := compareInt64_pos

theorem compare_le : p.compare q ≤ 0 ↔ p ≤ q := by
  rw [← not_lt, ← not_lt (a := q), not_iff_not]
  exact compare_gt

theorem compare_ge : p.compare q ≥ 0 ↔ q ≤ p := by
  rw [ge_iff_le, ← not_lt, ← not_lt (a := p), not_iff_not]
  exact compare_lt

theorem compare_eq : p.compare q = 0 ↔ p = q :=
  compareInt64_eq_zero.trans ⟨nanoseconds_injective, congrArg nanoseconds⟩

theorem nanoseconds_eq (p : PlainDateTime) :
    p.nanoseconds = p.dayNumber * nanosPerDay + p.timeOfDay := by
  unfold dayNumber timeOfDay nanosPerDay
  omega

theorem timeOfDay_bounds (p : PlainDateTime) : 0 ≤ p.timeOfDay ∧ p.timeOfDay < nanosPerDay := by
  unfold timeOfDay nanosPerDay
  omega

theorem eq_of_day_time (hday : p.dayNumber = q.dayNumber) (htime : p.timeOfDay = q.timeOfDay) :
    p = q := nanoseconds_injective (by rw [nanoseconds_eq, nanoseconds_eq q, hday, htime])

theorem lt_of_day (h : p.dayNumber < q.dayNumber) : p < q := by
  rw [lt_iff]
  unfold dayNumber nanosPerDay at h
  omega

theorem day_le_of_le (h : p ≤ q) : p.dayNumber ≤ q.dayNumber := by
  by_contra hlt
  exact absurd h (not_le.mpr (lt_of_day (by omega)))

/-- Every date-time lies between these days. -/
theorem dayNumber_bounds (p : PlainDateTime) :
    -106752 ≤ p.dayNumber ∧ p.dayNumber ≤ 106751 := by
  obtain ⟨hlow, hhigh⟩ := p.inRange
  unfold dayNumber nanosPerDay
  omega

section Building

variable {day time : Int}

theorem fromDayTime_eq_ok (h : 0 ≤ time ∧ time < nanosPerDay) :
    fromDayTime day time = .ok p ↔ p.dayNumber = day ∧ p.timeOfDay = time := by
  unfold fromDayTime checked
  unfold nanosPerDay at h
  constructor
  · intro hok
    split_ifs at hok with hrange
    · have hvalue : day * nanosPerDay + time = p.nanoseconds :=
        congrArg nanoseconds (Except.ok.inj hok)
      unfold nanosPerDay at hvalue
      unfold dayNumber timeOfDay nanosPerDay
      omega
    · cases hok
  · rintro ⟨rfl, rfl⟩
    have heq := p.nanoseconds_eq
    rw [dif_pos (heq ▸ p.inRange)]
    exact congrArg Except.ok (nanoseconds_injective heq.symm)

theorem fromDayTime_error {e : String} (h : fromDayTime day time = .error e) :
    e = outsideLocalRange := by
  unfold fromDayTime checked at h
  split_ifs at h
  · cases h
  · exact (Except.error.inj h).symm

theorem addDays_eq_ok {days : Int} :
    p.addDays days = .ok q ↔ q.dayNumber = p.dayNumber + days ∧ q.timeOfDay = p.timeOfDay :=
  fromDayTime_eq_ok p.timeOfDay_bounds

theorem addDays_zero (p : PlainDateTime) : p.addDays 0 = .ok p :=
  addDays_eq_ok.mpr ⟨by omega, rfl⟩

theorem addDays_error {days : Int} {e : String} (h : p.addDays days = .error e) :
    e = outsideLocalRange := fromDayTime_error h

end Building

section Dates

def date (p : PlainDateTime) : Date := Date.ofDayNumber p.dayNumber

theorem date_valid (p : PlainDateTime) : p.date.Valid := Date.valid_ofDayNumber p.dayNumber

theorem dayNumber_date (p : PlainDateTime) : p.date.dayNumber = p.dayNumber :=
  Date.dayNumber_ofDayNumber p.dayNumber

@[simp] theorem fields_year (p : PlainDateTime) : p.fields.year = p.date.year := rfl
@[simp] theorem fields_month (p : PlainDateTime) : p.fields.month = p.date.month := rfl
@[simp] theorem fields_day (p : PlainDateTime) : p.fields.day = p.date.day := rfl

theorem date_eq_iff {d : Date} (h : d.Valid) : p.date = d ↔ p.dayNumber = d.dayNumber := by
  constructor
  · rintro rfl
    exact p.dayNumber_date.symm
  · intro heq
    unfold date
    rw [heq, Date.ofDayNumber_dayNumber h]

theorem year_bounds (p : PlainDateTime) : 1677 ≤ p.date.year ∧ p.date.year ≤ 2262 := by
  obtain ⟨hlow, hhigh⟩ := p.dayNumber_bounds
  obtain ⟨hstart, hend⟩ := yearOfDay_spec (p.dayNumber + 719162)
  show 1677 ≤ yearOfDay (p.dayNumber + 719162) ∧ yearOfDay (p.dayNumber + 719162) ≤ 2262
  unfold daysBeforeYear at hstart hend
  omega

/-- The time of day that the fields give. -/
theorem timeOfDay_fields (p : PlainDateTime) :
    timeNanoseconds p.fields.hour p.fields.minute p.fields.second p.fields.nanosecond =
      p.timeOfDay := timeFields_time p.timeOfDay

structure TimeFits (fields : CivilFields) : Prop where
  hour : 0 ≤ fields.hour ∧ fields.hour ≤ 23
  minute : 0 ≤ fields.minute ∧ fields.minute ≤ 59
  second : 0 ≤ fields.second ∧ fields.second ≤ 59
  nanosecond : 0 ≤ fields.nanosecond ∧ fields.nanosecond < nanosPerSecond

theorem time_fits (p : PlainDateTime) : TimeFits p.fields := by
  have htime := p.timeOfDay_bounds
  unfold nanosPerDay at htime
  have hfields : p.fields.hour = p.timeOfDay / nanosPerSecond / 3600 ∧
      p.fields.minute = p.timeOfDay / nanosPerSecond / 60 % 60 ∧
      p.fields.second = p.timeOfDay / nanosPerSecond % 60 ∧
      p.fields.nanosecond = p.timeOfDay % nanosPerSecond := ⟨rfl, rfl, rfl, rfl⟩
  obtain ⟨hhour, hminute, hsecond, hnano⟩ := hfields
  unfold nanosPerSecond at hhour hminute hsecond hnano
  refine ⟨?_, ?_, ?_, ?_⟩
  · omega
  · omega
  · omega
  · unfold nanosPerSecond
    omega

theorem timeNanoseconds_bounds {fields : CivilFields} (h : TimeFits fields) :
    0 ≤ timeNanoseconds fields.hour fields.minute fields.second fields.nanosecond ∧
      timeNanoseconds fields.hour fields.minute fields.second fields.nanosecond < nanosPerDay := by
  obtain ⟨hhour, hminute, hsecond, hnano⟩ := h
  unfold nanosPerSecond at hnano
  unfold timeNanoseconds nanosPerSecond nanosPerDay
  omega

theorem fromFields_eq_ok {fields : CivilFields} :
    fromFields fields = .ok p ↔ p.fields = fields.stored := by
  unfold fromFields nanosFromFields validateDateFields validateTimeFields
  simp only [bind_eq_ok, ensure_eq_ok, pure_eq_ok]
  constructor
  · rintro ⟨_, ⟨_, ⟨_, ⟨-, -, hvalid⟩, rfl⟩, _, ⟨hhour, hminute, hsecond, hnano⟩, rfl⟩, hok⟩
    obtain ⟨hday, htime⟩ := (fromDayTime_eq_ok
      (timeNanoseconds_bounds ⟨hhour, hminute, hsecond, hnano⟩)).mp hok
    have hdate := (date_eq_iff hvalid).mpr hday
    have hfields : p.fields = ⟨p.date.year, p.date.month, p.date.day, (timeFields p.timeOfDay).1,
      (timeFields p.timeOfDay).2.1, (timeFields p.timeOfDay).2.2.1,
      (timeFields p.timeOfDay).2.2.2⟩ := rfl
    rw [hfields, hdate, htime, timeFields_timeNanoseconds hminute hsecond hnano]
    rfl
  · intro h
    have hhour : fields.hour = p.fields.hour := (congrArg CivilFields.hour h).symm
    have hminute : fields.minute = p.fields.minute := (congrArg CivilFields.minute h).symm
    have hsecond : fields.second = p.fields.second := (congrArg CivilFields.second h).symm
    have hnano : fields.nanosecond = p.fields.nanosecond := (congrArg CivilFields.nanosecond h).symm
    have hdate : (⟨fields.year, byte fields.month, byte fields.day⟩ : Date) = p.date :=
      (congrArg (fun f : CivilFields => Date.mk f.year f.month f.day) h).symm
    obtain ⟨hlow, hhigh⟩ := p.year_bounds
    have hyear : fields.year = p.date.year := congrArg Date.year hdate
    rw [hdate, hhour, hminute, hsecond, hnano]
    refine ⟨_, ⟨_, ⟨(), ⟨by omega, by omega, p.date_valid⟩, rfl⟩, (),
      ⟨p.time_fits.hour, p.time_fits.minute, p.time_fits.second, p.time_fits.nanosecond⟩, rfl⟩, ?_⟩
    refine (fromDayTime_eq_ok (timeNanoseconds_bounds p.time_fits)).mpr ⟨?_, ?_⟩
    · exact p.dayNumber_date.symm
    · exact p.timeOfDay_fields.symm

theorem byte_eq {n : Int} (h : 0 ≤ n ∧ n < 256) : byte n = n := Int.emod_eq_of_lt h.1 h.2

theorem stored_eq {fields : CivilFields} (hmonth : 0 ≤ fields.month ∧ fields.month < 256)
    (hday : 0 ≤ fields.day ∧ fields.day < 256) : fields.stored = fields := by
  unfold CivilFields.stored
  rw [byte_eq hmonth, byte_eq hday]

theorem month_byte (p : PlainDateTime) : 0 ≤ p.date.month ∧ p.date.month < 256 := by
  have := p.date_valid.month
  omega

theorem daysInMonth_byte (p : PlainDateTime) : daysInMonth p.date.year p.date.month < 256 := by
  have hstep := @daysBeforeMonth_step p.date.year _ p.date_valid.month.1 p.date_valid.month.2
  unfold daysInMonth
  omega

theorem day_byte (p : PlainDateTime) : 0 ≤ p.date.day ∧ p.date.day < 256 := by
  have hday := p.date_valid.day
  have hlast := p.daysInMonth_byte
  omega

theorem stored_fields (p : PlainDateTime) : p.fields.stored = p.fields :=
  stored_eq p.month_byte p.day_byte

/-- Every date-time is built from its fields. -/
theorem fromFields_fields (p : PlainDateTime) : fromFields p.fields = .ok p :=
  fromFields_eq_ok.mpr p.stored_fields.symm

/-- Calendar steps keep the day of the month as far as the month reached has it. -/
theorem addCalendar_eq_ok {years months : Int} (h : p.addCalendar years months = .ok q) :
    q.date.year * 12 + (q.date.month - 1) =
        p.date.year * 12 + (p.date.month - 1) + (years * 12 + months) ∧
      q.date.day = min p.date.day (daysInMonth q.date.year q.date.month) ∧
        q.timeOfDay = p.timeOfDay := by
  unfold addCalendar addCalendarMonths at h
  simp only [bind_eq_ok, ensure_eq_ok, pure_eq_ok, fields_year, fields_month, fields_day] at h
  obtain ⟨d, ⟨-, -, rfl⟩, h⟩ := h
  obtain ⟨hday, htime⟩ := (fromDayTime_eq_ok p.timeOfDay_bounds).mp h
  generalize hyear : (p.date.year * 12 + (p.date.month - 1) + (years * 12 + months)) / 12 = year at *
  generalize hmonth : (p.date.year * 12 + (p.date.month - 1) + (years * 12 + months)) % 12 + 1 =
    month at *
  have hbounds : 1 ≤ month ∧ month ≤ 12 := by omega
  have hstep := @daysBeforeMonth_step year _ hbounds.1 hbounds.2
  have hlength : 28 ≤ daysInMonth year month := by
    unfold daysInMonth
    omega
  have hfirst := p.date_valid.day.1
  have hvalid : Date.Valid ⟨year, month, min p.date.day (daysInMonth year month)⟩ :=
    ⟨hbounds, by dsimp only; omega, by dsimp only; omega⟩
  rw [(date_eq_iff hvalid).mpr hday]
  exact ⟨by dsimp only; omega, rfl, htime⟩

/-- A date-time with the date of its fields and the time of another. -/
theorem fields_eq_iff {year month day : Int} :
    p.fields = ⟨year, month, day, q.fields.hour, q.fields.minute, q.fields.second,
        q.fields.nanosecond⟩ ↔
      p.date = ⟨year, month, day⟩ ∧ p.timeOfDay = q.timeOfDay := by
  constructor
  · intro h
    refine ⟨?_, ?_⟩
    · have := congrArg (fun f : CivilFields => Date.mk f.year f.month f.day) h
      exact this
    · rw [← p.timeOfDay_fields, h, ← q.timeOfDay_fields]
  · rintro ⟨hdate, htime⟩
    have hfields : ∀ r : PlainDateTime, r.fields = ⟨r.date.year, r.date.month, r.date.day,
      (timeFields r.timeOfDay).1, (timeFields r.timeOfDay).2.1, (timeFields r.timeOfDay).2.2.1,
      (timeFields r.timeOfDay).2.2.2⟩ := fun _ => rfl
    rw [hfields p, hdate, htime]
    rfl

end Dates

end PlainDateTime

end Space2.Temporal
