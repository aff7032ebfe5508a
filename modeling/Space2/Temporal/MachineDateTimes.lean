import Space2.Temporal.CheckedNanoseconds
import Space2.Temporal.DateTimeTexts

/-!
# Date-times on signed integers

The count of a date-time is split into a floored day and the time since that day on integers of 64
bits. The first day of the range begins before the first count, so its start is no such integer.
-/
namespace Space2.Temporal
open Base Signed

namespace Checked

/-- A computation without integers of 64 bits. -/
def lift {α : Type} (x : Except String α) : Machine α := x.mapError .thrown

section Splitting

/-- `date::floor<date::days>` -/
def floorDays (value : Int64) : Machine Int64 := do
  let day ← div value 86400000000000
  let start ← mul day 86400000000000
  if value < start then sub day 1 else pure day

/-- `value - day` -/
def sinceDay (value day : Int64) : Machine Int64 := do
  let start ← mul day 86400000000000
  sub value start

/-- `date::hh_mm_ss` -/
def hhMmSs (duration : Int64) : Machine (Int64 × Int64 × Int64 × Int64) := do
  let time ← if 0 ≤ duration then pure duration else sub 0 duration
  let hours ← div time 3600000000000
  let allMinutes ← div time 60000000000
  let minutes ← sub allMinutes (← mul hours 60)
  let afterHours ← sub time (← mul hours 3600000000000)
  let afterMinutes ← sub afterHours (← mul minutes 60000000000)
  let seconds ← div afterMinutes 1000000000
  let subseconds ← sub afterMinutes (← mul seconds 1000000000)
  pure (hours, minutes, seconds, subseconds)

def fieldsFromLocal (value : Int64) : Machine CivilFields := do
  let day ← floorDays value
  let ymd := Date.ofDayNumber day.toInt
  let time ← hhMmSs (← sinceDay value day)
  pure ⟨ymd.year, ymd.month, ymd.day, time.1.toInt, time.2.1.toInt, time.2.2.1.toInt,
    time.2.2.2.toInt⟩

variable {value : Int64}

theorem toInt_ofInt_small {n : Int} (hlow : -2 ^ 63 ≤ n) (hhigh : n < 2 ^ 63) :
    (Int64.ofInt n).toInt = n := toInt_ofInt ⟨hlow, hhigh⟩

theorem toInt_dayUnit : (86400000000000 : Int64).toInt = nanosPerDay := by decide

theorem floorDays_eq (value : Int64) :
    floorDays value = .ok (.ofInt (value.toInt / nanosPerDay)) := by
  obtain ⟨hlow, hhigh⟩ := fits_toInt value
  have hquotient : value.toInt.tdiv 86400000000000 =
      if 0 ≤ value.toInt then value.toInt / 86400000000000
      else -(-value.toInt / 86400000000000) := by
    split_ifs with hsign
    · exact Int.tdiv_eq_ediv_of_nonneg hsign
    · rw [← Int.tdiv_eq_ediv_of_nonneg (by omega : 0 ≤ -value.toInt), Int.neg_tdiv, neg_neg]
  generalize hday : value.toInt.tdiv 86400000000000 = day at hquotient
  have hsmall : (Int64.ofInt day).toInt = day :=
    toInt_ofInt_small (by split_ifs at hquotient <;> omega) (by split_ifs at hquotient <;> omega)
  have hstart : Fits (day * 86400000000000) := by
    split_ifs at hquotient
    · exact ⟨by omega, by omega⟩
    · exact ⟨by omega, by omega⟩
  have hdiv : div value 86400000000000 = .ok (.ofInt day) := hday ▸ div_of_pos (by decide)
  have hmul : mul (.ofInt day) 86400000000000 = .ok (.ofInt (day * 86400000000000)) := by
    unfold mul
    rw [hsmall]
    exact exact_of_fits hstart
  unfold floorDays nanosPerDay
  rw [hdiv]
  change (mul (.ofInt day) 86400000000000 >>= fun start =>
    if value < start then sub (.ofInt day) 1 else pure (.ofInt day)) = _
  rw [hmul]
  change (if value < Int64.ofInt (day * 86400000000000) then _ else _) = _
  have hbefore : value < Int64.ofInt (day * 86400000000000) ↔
      value.toInt < day * 86400000000000 := by
    rw [Int64.lt_iff_toInt_lt, toInt_ofInt hstart]
  by_cases hless : value.toInt < day * 86400000000000
  · have hfloor : day - 1 = value.toInt / 86400000000000 := by
      split_ifs at hquotient <;> omega
    have hdown : Fits (day - 1) := ⟨by omega, by omega⟩
    rw [if_pos (hbefore.mpr hless), sub, hsmall, ← hfloor]
    exact exact_of_fits hdown
  · have hfloor : day = value.toInt / 86400000000000 := by
      split_ifs at hquotient <;> omega
    rw [if_neg (hbefore.not.mpr hless), ← hfloor]
    rfl

/-- The day of a count, when its start is a count as well. -/
def StartsInRange (value : Int64) : Prop := -106751 * nanosPerDay ≤ value.toInt

instance (value : Int64) : Decidable (StartsInRange value) := by
  unfold StartsInRange
  infer_instance

theorem sinceDay_eq (h : StartsInRange value) :
    sinceDay value (.ofInt (value.toInt / nanosPerDay)) =
      .ok (.ofInt (value.toInt % nanosPerDay)) := by
  obtain ⟨hlow, hhigh⟩ := fits_toInt value
  unfold StartsInRange nanosPerDay at h
  unfold sinceDay mul sub nanosPerDay
  have hday : (Int64.ofInt (value.toInt / 86400000000000)).toInt = value.toInt / 86400000000000 :=
    toInt_ofInt_small (by omega) (by omega)
  have hstart : Fits (value.toInt / 86400000000000 * 86400000000000) := ⟨by omega, by omega⟩
  have hunit : (86400000000000 : Int64).toInt = 86400000000000 := by decide
  rw [hday, hunit, exact_of_fits hstart]
  change exact (value.toInt - (Int64.ofInt _).toInt) = _
  rw [toInt_ofInt hstart, exact_of_fits ⟨by omega, by omega⟩]
  congr 2
  omega

theorem sinceDay_undefined (h : ¬ StartsInRange value) :
    sinceDay value (.ofInt (value.toInt / nanosPerDay)) = .error .undefined := by
  obtain ⟨hlow, hhigh⟩ := fits_toInt value
  unfold StartsInRange nanosPerDay at h
  unfold sinceDay mul nanosPerDay
  have hday : (Int64.ofInt (value.toInt / 86400000000000)).toInt = value.toInt / 86400000000000 :=
    toInt_ofInt_small (by omega) (by omega)
  have hunit : (86400000000000 : Int64).toInt = 86400000000000 := by decide
  have hstart : ¬ Fits (value.toInt / 86400000000000 * 86400000000000) := by
    unfold Fits
    omega
  rw [hday, hunit, exact, if_neg hstart]
  rfl

/-- The parts of a time of day. -/
theorem hhMmSs_eq {time : Int} (h : 0 ≤ time ∧ time < nanosPerDay) :
    hhMmSs (.ofInt time) = .ok (.ofInt (timeFields time).1, .ofInt (timeFields time).2.1,
      .ofInt (timeFields time).2.2.1, .ofInt (timeFields time).2.2.2) := by
  unfold nanosPerDay at h
  have hfits : Fits time := fits_of_bounds (by omega) (by omega)
  have hnonneg : (0 : Int64) ≤ Int64.ofInt time := by
    rw [Int64.le_iff_toInt_le, toInt_ofInt hfits]
    exact h.1
  have hhours : time / 3600000000000 = time / nanosPerSecond / 3600 := by
    unfold nanosPerSecond
    omega
  have hminutes : time / 60000000000 - time / 3600000000000 * 60 =
      time / nanosPerSecond / 60 % 60 := by
    unfold nanosPerSecond
    omega
  have hseconds : (time - time / 3600000000000 * 3600000000000 -
      (time / 60000000000 - time / 3600000000000 * 60) * 60000000000) / 1000000000 =
        time / nanosPerSecond % 60 := by
    unfold nanosPerSecond
    omega
  have hsubseconds : time - time / 3600000000000 * 3600000000000 -
      (time / 60000000000 - time / 3600000000000 * 60) * 60000000000 -
        time / nanosPerSecond % 60 * 1000000000 = time % nanosPerSecond := by
    unfold nanosPerSecond
    omega
  unfold hhMmSs
  rw [if_pos hnonneg]
  change (div (.ofInt time) (.ofInt 3600000000000) >>= fun hours =>
    div (.ofInt time) (.ofInt 60000000000) >>= fun allMinutes =>
    mul hours (.ofInt 60) >>= fun inHours => sub allMinutes inHours >>= fun minutes =>
    mul hours (.ofInt 3600000000000) >>= fun hourPart => sub (.ofInt time) hourPart >>= fun rest =>
    mul minutes (.ofInt 60000000000) >>= fun minutePart => sub rest minutePart >>= fun left =>
    div left (.ofInt 1000000000) >>= fun seconds => mul seconds (.ofInt 1000000000) >>=
    fun secondPart => sub left secondPart >>= fun subseconds =>
    pure (hours, minutes, seconds, subseconds) : Machine _) = _
  rw [div_ofInt hfits (by decide) h.1 (by decide), ok_bind,
    div_ofInt hfits (by decide) h.1 (by decide), ok_bind,
    mul_ofInt (fits_of_bounds (by omega) (by omega)) (by decide)
      (fits_of_bounds (by omega) (by omega)), ok_bind,
    sub_ofInt (fits_of_bounds (by omega) (by omega)) (fits_of_bounds (by omega) (by omega))
      (fits_of_bounds (by omega) (by omega)), ok_bind,
    mul_ofInt (fits_of_bounds (by omega) (by omega)) (by decide)
      (fits_of_bounds (by omega) (by omega)), ok_bind,
    sub_ofInt hfits (fits_of_bounds (by omega) (by omega))
      (fits_of_bounds (by omega) (by omega)), ok_bind,
    mul_ofInt (fits_of_bounds (by omega) (by omega)) (by decide)
      (fits_of_bounds (by omega) (by omega)), ok_bind,
    sub_ofInt (fits_of_bounds (by omega) (by omega)) (fits_of_bounds (by omega) (by omega))
      (fits_of_bounds (by omega) (by omega)), ok_bind,
    div_ofInt (fits_of_bounds (by omega) (by omega)) (by decide) (by omega) (by decide), ok_bind,
    mul_ofInt (fits_of_bounds (by omega) (by omega)) (by decide)
      (fits_of_bounds (by omega) (by omega)), ok_bind,
    sub_ofInt (fits_of_bounds (by omega) (by omega)) (fits_of_bounds (by omega) (by omega))
      (fits_of_bounds (by omega) (by omega)), ok_bind, hseconds, hsubseconds, hminutes, hhours]
  rfl

theorem timeFields_fit {time : Int} (h : 0 ≤ time ∧ time < nanosPerDay) :
    Fits (timeFields time).1 ∧ Fits (timeFields time).2.1 ∧ Fits (timeFields time).2.2.1 ∧
      Fits (timeFields time).2.2.2 := by
  unfold nanosPerDay at h
  unfold timeFields nanosPerSecond Fits
  dsimp only
  omega

/-- The fields of a count whose day begins within the range. -/
theorem fieldsFromLocal_eq (h : StartsInRange value) :
    fieldsFromLocal value = .ok (Temporal.fieldsFromLocal value.toInt) := by
  obtain ⟨hlow, hhigh⟩ := fits_toInt value
  have htime : 0 ≤ value.toInt % nanosPerDay ∧ value.toInt % nanosPerDay < nanosPerDay := by
    unfold nanosPerDay
    omega
  have hday : Fits (value.toInt / nanosPerDay) := by
    unfold nanosPerDay Fits
    omega
  obtain ⟨hhour, hminute, hsecond, hnanosecond⟩ := timeFields_fit htime
  unfold fieldsFromLocal
  rw [floorDays_eq, ok_bind, sinceDay_eq h, ok_bind, hhMmSs_eq htime, ok_bind, toInt_ofInt hday,
    toInt_ofInt hhour, toInt_ofInt hminute, toInt_ofInt hsecond, toInt_ofInt hnanosecond]
  rfl

theorem fieldsFromLocal_undefined (h : ¬ StartsInRange value) :
    fieldsFromLocal value = .error .undefined := by
  unfold fieldsFromLocal
  rw [floorDays_eq, ok_bind, sinceDay_undefined h]
  rfl

end Splitting

section Building

/-- The time of day that both `nanos_from_fields` and `add_calendar` add up. -/
def timeOfFields (fields : CivilFields) : Machine Int64 := do
  let hourNanos ← checkedMultiply (.ofInt fields.hour) 3600000000000
  let minuteNanos ← checkedMultiply (.ofInt fields.minute) 60000000000
  let secondNanos ← checkedMultiply (.ofInt fields.second) 1000000000
  let inMinutes ← checkedAdd hourNanos minuteNanos
  let inSeconds ← checkedAdd secondNanos (.ofInt fields.nanosecond)
  checkedAdd inMinutes inSeconds

def nanosFromFields (fields : CivilFields) : Machine (Int64 × Int64) := do
  let ymd ← lift (validateDateFields fields.year fields.month fields.day)
  lift (validateTimeFields fields.hour fields.minute fields.second fields.nanosecond)
  let timeNanos ← timeOfFields fields
  pure (.ofInt ymd.dayNumber, timeNanos)

def localFromFields (fields : CivilFields) : Machine Int64 := do
  let civil ← nanosFromFields fields
  nanosFromDayTime civil.1 civil.2 outsideLocalRange

variable {n m : Int} {fields : CivilFields}

theorem checkedMultiply_ofInt (hn : Fits n) (hm : Fits m) (h : Fits (n * m)) :
    checkedMultiply (.ofInt n) (.ofInt m) = .ok (.ofInt (n * m)) := by
  rw [checkedMultiply_eq, toInt_ofInt hn, toInt_ofInt hm]
  exact orThrow_of_fits h

theorem checkedAdd_ofInt (hn : Fits n) (hm : Fits m) (h : Fits (n + m)) :
    checkedAdd (.ofInt n) (.ofInt m) = .ok (.ofInt (n + m)) := by
  rw [checkedAdd_eq, toInt_ofInt hn, toInt_ofInt hm]
  exact orThrow_of_fits h

theorem timeOfFields_eq (h : PlainDateTime.TimeFits fields) :
    timeOfFields fields = .ok (.ofInt (timeNanoseconds fields.hour fields.minute fields.second
      fields.nanosecond)) := by
  obtain ⟨hhour, hminute, hsecond, hnano⟩ := h
  unfold nanosPerSecond at hnano
  have htotal : fields.hour * 3600000000000 + fields.minute * 60000000000 +
      (fields.second * 1000000000 + fields.nanosecond) =
        timeNanoseconds fields.hour fields.minute fields.second fields.nanosecond := by
    unfold timeNanoseconds nanosPerSecond
    omega
  unfold timeOfFields
  change (checkedMultiply (.ofInt fields.hour) (.ofInt 3600000000000) >>= fun hourNanos =>
    checkedMultiply (.ofInt fields.minute) (.ofInt 60000000000) >>= fun minuteNanos =>
    checkedMultiply (.ofInt fields.second) (.ofInt 1000000000) >>= fun secondNanos =>
    checkedAdd hourNanos minuteNanos >>= fun inMinutes =>
    checkedAdd secondNanos (.ofInt fields.nanosecond) >>= fun inSeconds =>
    checkedAdd inMinutes inSeconds : Machine Int64) = _
  rw [checkedMultiply_ofInt (fits_of_bounds (by omega) (by omega)) (by decide)
      (fits_of_bounds (by omega) (by omega)), ok_bind,
    checkedMultiply_ofInt (fits_of_bounds (by omega) (by omega)) (by decide)
      (fits_of_bounds (by omega) (by omega)), ok_bind,
    checkedMultiply_ofInt (fits_of_bounds (by omega) (by omega)) (by decide)
      (fits_of_bounds (by omega) (by omega)), ok_bind,
    checkedAdd_ofInt (fits_of_bounds (by omega) (by omega)) (fits_of_bounds (by omega) (by omega))
      (fits_of_bounds (by omega) (by omega)), ok_bind,
    checkedAdd_ofInt (fits_of_bounds (by omega) (by omega)) (fits_of_bounds (by omega) (by omega))
      (fits_of_bounds (by omega) (by omega)), ok_bind,
    checkedAdd_ofInt (fits_of_bounds (by omega) (by omega)) (fits_of_bounds (by omega) (by omega))
      (fits_of_bounds (by omega) (by omega)), htotal]

/-- The dates that can be stored have small day numbers. -/
theorem dayNumber_small {date : Date} (hvalid : date.Valid)
    (hyear : -32767 ≤ date.year ∧ date.year ≤ 32767) :
    -13000000 ≤ date.dayNumber ∧ date.dayNumber ≤ 13000000 := by
  have hday := Date.dayOfYear_bounds hvalid
  have hlength : daysInYear date.year ≤ 366 := by
    unfold daysInYear
    split_ifs <;> decide
  unfold Date.dayNumber daysBeforeYear
  omega

theorem validateDateFields_eq_ok {year month day : Int} {date : Date} :
    validateDateFields year month day = .ok date ↔
      (-32767 ≤ year ∧ year ≤ 32767) ∧ date.Valid ∧ date = ⟨year, byte month, byte day⟩ := by
  unfold validateDateFields
  simp only [bind_eq_ok, ensure_eq_ok, pure_eq_ok]
  constructor
  · rintro ⟨-, ⟨hlow, hhigh, hvalid⟩, rfl⟩
    exact ⟨⟨hlow, hhigh⟩, hvalid, rfl⟩
  · rintro ⟨⟨hlow, hhigh⟩, hvalid, rfl⟩
    exact ⟨(), ⟨hlow, hhigh, hvalid⟩, rfl⟩

theorem nanosFromFields_eq (fields : CivilFields) :
    nanosFromFields fields = lift ((fun civil => (Int64.ofInt civil.1, Int64.ofInt civil.2)) <$>
      Temporal.nanosFromFields fields) := by
  unfold nanosFromFields Temporal.nanosFromFields
  cases validateDateFields fields.year fields.month fields.day with
  | error e => rfl
  | ok date =>
    cases htime : validateTimeFields fields.hour fields.minute fields.second fields.nanosecond with
    | error e => rfl
    | ok valid =>
      obtain ⟨hhour, hminute, hsecond, hnano⟩ := ensure_eq_ok.mp htime
      change (timeOfFields fields >>= fun timeNanos => pure (Int64.ofInt date.dayNumber, timeNanos)) = _
      rw [timeOfFields_eq ⟨hhour, hminute, hsecond, hnano⟩]
      rfl

/-- What `nanos_from_fields` gives is a day of a small number and a time within a day. -/
theorem nanosFromFields_bounds {day time : Int} (h : Temporal.nanosFromFields fields = .ok (day, time)) :
    (-13000000 ≤ day ∧ day ≤ 13000000) ∧ 0 ≤ time ∧ time < nanosPerDay := by
  unfold Temporal.nanosFromFields at h
  simp only [bind_eq_ok, pure_eq_ok, Prod.mk.injEq] at h
  obtain ⟨date, hdate, valid, htime, rfl, rfl⟩ := h
  obtain ⟨hyear, hvalid, rfl⟩ := validateDateFields_eq_ok.mp hdate
  obtain ⟨hhour, hminute, hsecond, hnano⟩ := ensure_eq_ok.mp htime
  exact ⟨dayNumber_small hvalid hyear,
    PlainDateTime.timeNanoseconds_bounds ⟨hhour, hminute, hsecond, hnano⟩⟩

/-- A count in 64 bits, whichever way it is checked. -/
theorem orThrow_eq_lift {α : Type} (n : Int) (message : String) (build : {n : Int // InRange n} → α)
    (count : α → Int64) (h : ∀ n, count (build n) = .ofInt n.1) :
    orThrow n message = lift (count <$> (build <$> Temporal.checked n message)) := by
  unfold orThrow Temporal.checked
  by_cases hfits : Fits n
  · rw [if_pos hfits, dif_pos (show InRange n from hfits)]
    exact congrArg Except.ok (h ⟨n, hfits⟩).symm
  · rw [if_neg hfits, dif_neg (show ¬ InRange n from hfits)]
    rfl

def plainCount (p : PlainDateTime) : Int64 := .ofInt p.nanoseconds

def instantCount (i : Instant) : Int64 := .ofInt i.nanoseconds

theorem fromDayTime_eq {day time : Int} (hday : Fits day)
    (htime : 0 ≤ time ∧ time < nanosPerDay) :
    nanosFromDayTime (.ofInt day) (.ofInt time) outsideLocalRange =
      lift (plainCount <$> PlainDateTime.fromDayTime day time) := by
  have hfits : Fits time := by
    unfold nanosPerDay at htime
    exact fits_of_bounds (by omega) (by omega)
  rw [nanosFromDayTime_of_time (by rwa [toInt_ofInt hfits]), toInt_ofInt hday, toInt_ofInt hfits]
  exact orThrow_eq_lift _ _ (fun n => (⟨n.1, n.2⟩ : PlainDateTime)) _ fun _ => rfl

/-- Fields are turned into a count as without bounds on integers. -/
theorem localFromFields_eq (fields : CivilFields) :
    localFromFields fields = lift (plainCount <$> PlainDateTime.fromFields fields) := by
  unfold localFromFields PlainDateTime.fromFields
  rw [nanosFromFields_eq]
  cases hcivil : Temporal.nanosFromFields fields with
  | error e => rfl
  | ok civil =>
    obtain ⟨hday, htime⟩ := @nanosFromFields_bounds fields civil.1 civil.2 hcivil
    exact fromDayTime_eq (fits_of_bounds (by omega) (by omega)) htime

end Building

section Operations

def plainToText (value : Int64) : Machine Text := do
  let fields ← fieldsFromLocal value
  pure (formatCivil fields)

def instantToText (value : Int64) : Machine Text := do
  let fields ← fieldsFromLocal value
  pure (formatCivil fields ++ ['Z'])

def addDays (value : Int64) (days : Int32) : Machine Int64 := do
  let day ← floorDays value
  let time ← sinceDay value day
  let nextDayCount ← checkedAdd day days.toInt64
  nanosFromDayTime nextDayCount time outsideLocalRange

def isoWeekday (value : Int64) : Machine Int := do
  let day ← floorDays value
  pure (Date.isoWeekday day.toInt)

def plain (value : Int64) : PlainDateTime := ⟨value.toInt, fits_toInt value⟩

def instant (value : Int64) : Instant := ⟨value.toInt, fits_toInt value⟩

variable {value : Int64} {text : Text}

theorem plainCount_plain (value : Int64) : plainCount (plain value) = value := Int64.ofInt_toInt value

theorem instantCount_instant (value : Int64) : instantCount (instant value) = value :=
  Int64.ofInt_toInt value

theorem plainToText_eq (h : StartsInRange value) :
    plainToText value = .ok (plain value).toText := by
  unfold plainToText
  rw [fieldsFromLocal_eq h]
  rfl

theorem instantToText_eq (h : StartsInRange value) :
    instantToText value = .ok (instant value).toText := by
  unfold instantToText
  rw [fieldsFromLocal_eq h]
  rfl

theorem addDays_eq (h : StartsInRange value) (days : Int32) :
    addDays value days = lift (plainCount <$> (plain value).addDays days.toInt) := by
  have hday := (plain value).dayNumber_bounds
  have hdays : days.toInt64.toInt = days.toInt := Int32.toInt_toInt64 days
  have hlow := days.le_toInt
  have hhigh := days.toInt_lt
  have hfloor : floorDays value = .ok (.ofInt (plain value).dayNumber) := floorDays_eq value
  have hsince : sinceDay value (.ofInt (plain value).dayNumber) =
      .ok (.ofInt (plain value).timeOfDay) := sinceDay_eq h
  have hfits : Fits ((plain value).dayNumber + days.toInt) :=
    fits_of_bounds (by omega) (by omega)
  unfold addDays
  rw [hfloor, ok_bind, hsince, ok_bind, checkedAdd_eq, hdays,
    toInt_ofInt (fits_of_bounds (by omega) (by omega)), orThrow_of_fits hfits, ok_bind]
  exact fromDayTime_eq hfits (plain value).timeOfDay_bounds

theorem isoWeekday_eq (value : Int64) : isoWeekday value = .ok (plain value).isoWeekday := by
  have hday := (plain value).dayNumber_bounds
  have hfits : Fits (value.toInt / nanosPerDay) := fits_of_bounds
    (show -2 ^ 63 ≤ (plain value).dayNumber by omega) (show (plain value).dayNumber < 2 ^ 63 by omega)
  unfold isoWeekday
  rw [floorDays_eq, ok_bind, toInt_ofInt hfits]
  rfl

theorem lift_defined {α : Type} (x : Except String α) : lift x ≠ .error .undefined := by
  cases x with
  | error e => exact fun h => nomatch Except.error.inj h
  | ok a => exact fun h => nomatch h

end Operations

section Parsing

/-- The days and the time of day of an adjusted time, floored. -/
def splitTime (adjustedTime : Int64) : Machine (Int64 × Int64) := do
  let dayDelta ← div adjustedTime 86400000000000
  let timeNanoseconds ← rem adjustedTime 86400000000000
  if timeNanoseconds < 0 then do
    let dayDelta ← sub dayDelta 1
    let timeNanoseconds ← checkedAdd timeNanoseconds 86400000000000
    pure (dayDelta, timeNanoseconds)
  else pure (dayDelta, timeNanoseconds)

/-- The exception that takes the place of an overflow. -/
def Fault.rethrown (message : String) : Fault → Fault
  | .thrown _ => .thrown message
  | .undefined => .undefined

/-- `checked_sys_from_civil_with_offset` -/
def sysFromCivilWithOffset (civil : Int64 × Int64) (offsetSeconds : Int64) : Machine Int64 := do
  let offsetNanoseconds ← checkedMultiply offsetSeconds 1000000000
  let adjustedTime ← checkedSubtract civil.2 offsetNanoseconds
  let split ← splitTime adjustedTime
  let daysSinceEpoch ← (checkedAdd civil.1 split.1).mapError (Fault.rethrown outsideInstantRange)
  nanosFromDayTime daysSinceEpoch split.2 outsideInstantRange

def parsePlain (text : Text) : Machine Int64 := do
  let parsed ← lift (parseCivil text "invalid temporal plain date-time")
  ensure (parsed.2 = []) (Fault.thrown "invalid temporal plain date-time")
  ensure (parsed.1.second ≠ 60) (Fault.thrown "leap seconds are not supported")
  localFromFields parsed.1

def parseInstant (text : Text) : Machine Int64 := do
  let parsed ← lift (parseCivil text "invalid temporal instant")
  match splitOffset parsed.2 with
  | none => throw (.thrown "invalid temporal instant")
  | some (sign, hours, minutes) => do
    ensure (parsed.1.second ≠ 60) (Fault.thrown "leap seconds are not supported")
    let civil ← nanosFromFields parsed.1
    ensure (hours ≤ 23 ∧ minutes ≤ 59) (Fault.thrown "invalid temporal instant offset")
    sysFromCivilWithOffset civil (.ofInt (sign * ((hours * 60 + minutes) * 60)))

variable {n day time offset : Int} {text : Text}

theorem splitTime_eq (h : Fits n) : splitTime (.ofInt n) =
    .ok (.ofInt (n / nanosPerDay), .ofInt (n % nanosPerDay)) := by
  obtain ⟨hlow, hhigh⟩ := id h
  have hdiv := @div_of_pos (.ofInt n) 86400000000000 (by decide)
  have hrem := @rem_of_pos (.ofInt n) 86400000000000 (by decide)
  rw [toInt_ofInt h, toInt_dayUnit] at hdiv hrem
  have hsum : n.tdiv nanosPerDay * nanosPerDay + n.tmod nanosPerDay = n := by
    rw [mul_comm]
    exact Int.mul_tdiv_add_tmod n nanosPerDay
  have hbound := Int.tmod_lt_of_pos n (show 0 < nanosPerDay by decide)
  have hbound' := Int.lt_tmod_of_pos n (show 0 < nanosPerDay by decide)
  unfold splitTime
  rw [hdiv, ok_bind, hrem, ok_bind]
  generalize n.tdiv nanosPerDay = quotient at *
  generalize n.tmod nanosPerDay = remainder at *
  unfold nanosPerDay at *
  have hremainder : Fits remainder := fits_of_bounds (by omega) (by omega)
  have hsign : Int64.ofInt remainder < 0 ↔ remainder < 0 := by
    rw [neg_iff, toInt_ofInt hremainder]
  by_cases hneg : remainder < 0
  · rw [if_pos (hsign.mpr hneg)]
    change (sub (.ofInt quotient) (.ofInt 1) >>= fun dayDelta =>
      checkedAdd (.ofInt remainder) (.ofInt 86400000000000) >>= fun timeNanoseconds =>
        pure (dayDelta, timeNanoseconds)) = _
    rw [sub_ofInt (fits_of_bounds (by omega) (by omega)) (by decide)
        (fits_of_bounds (by omega) (by omega)), ok_bind,
      checkedAdd_ofInt hremainder (by decide) (fits_of_bounds (by omega) (by omega)), ok_bind]
    have hfloor : quotient - 1 = n / 86400000000000 := by omega
    have hrest : remainder + 86400000000000 = n % 86400000000000 := by omega
    rw [hfloor, hrest]
    rfl
  · rw [if_neg (hsign.not.mpr hneg)]
    have hfloor : quotient = n / 86400000000000 := by omega
    have hrest : remainder = n % 86400000000000 := by omega
    rw [hfloor, hrest]
    rfl

/-- With a small day and offset only the last sum can be out of range. -/
theorem sysFromCivilWithOffset_eq (hday : -13000000 ≤ day ∧ day ≤ 13000000)
    (htime : 0 ≤ time ∧ time < nanosPerDay) (hoffset : -86400 < offset ∧ offset < 86400) :
    sysFromCivilWithOffset (.ofInt day, .ofInt time) (.ofInt offset) =
      orThrow (day * nanosPerDay + time - offset * nanosPerSecond) outsideInstantRange := by
  unfold nanosPerDay at htime
  have hproduct : Fits (offset * 1000000000) := fits_of_bounds (by omega) (by omega)
  have hadjusted : Fits (time - offset * 1000000000) := fits_of_bounds (by omega) (by omega)
  unfold sysFromCivilWithOffset
  change (checkedMultiply (.ofInt offset) (.ofInt 1000000000) >>= fun offsetNanoseconds =>
    checkedSubtract (.ofInt time) offsetNanoseconds >>= fun adjustedTime =>
    splitTime adjustedTime >>= fun split =>
    (checkedAdd (.ofInt day) split.1).mapError (Fault.rethrown outsideInstantRange) >>=
    fun daysSinceEpoch => nanosFromDayTime daysSinceEpoch split.2 outsideInstantRange) = _
  rw [checkedMultiply_ofInt (fits_of_bounds (by omega) (by omega)) (by decide) hproduct, ok_bind,
    checkedSubtract_eq, toInt_ofInt (fits_of_bounds (by omega) (by omega)), toInt_ofInt hproduct,
    orThrow_of_fits hadjusted, ok_bind, splitTime_eq hadjusted, ok_bind]
  have hdelta : Fits ((time - offset * 1000000000) / nanosPerDay) := by
    unfold nanosPerDay
    exact fits_of_bounds (by omega) (by omega)
  have hsum : Fits (day + (time - offset * 1000000000) / nanosPerDay) := by
    unfold nanosPerDay
    exact fits_of_bounds (by omega) (by omega)
  have hrest : Fits ((time - offset * 1000000000) % nanosPerDay) := by
    unfold nanosPerDay
    exact fits_of_bounds (by omega) (by omega)
  rw [checkedAdd_ofInt (fits_of_bounds (by omega) (by omega)) hdelta hsum]
  change nanosFromDayTime _ _ _ = _
  rw [nanosFromDayTime_of_time, toInt_ofInt hsum, toInt_ofInt hrest]
  · congr 1
    unfold nanosPerDay nanosPerSecond
    omega
  · rw [toInt_ofInt hrest]
    unfold nanosPerDay
    omega

theorem splitOffset_bounds {sign hours minutes : Int}
    (h : splitOffset text = some (sign, hours, minutes)) :
    (sign = 1 ∨ sign = -1) ∧ 0 ≤ hours ∧ 0 ≤ minutes := by
  unfold splitOffset at h
  split at h
  · obtain ⟨rfl, rfl, rfl⟩ := h
    exact ⟨.inl rfl, le_rfl, le_rfl⟩
  · split_ifs at h with hshape hminus
    · obtain ⟨rfl, rfl, rfl⟩ := h
      exact ⟨.inr rfl, Int.natCast_nonneg _, Int.natCast_nonneg _⟩
    · obtain ⟨rfl, rfl, rfl⟩ := h
      exact ⟨.inl rfl, Int.natCast_nonneg _, Int.natCast_nonneg _⟩
  · cases h

theorem lift_ok {α : Type} (a : α) : lift (.ok a) = .ok a := rfl

theorem lift_map_bind {α β γ : Type} (x : Except String α) (f : α → Except String β) (count : β → γ) :
    lift (count <$> (x >>= f)) = lift x >>= fun a => lift (count <$> f a) := by
  cases x <;> rfl

theorem lift_ensure (c : Prop) [Decidable c] (message : String) :
    lift (ensure c message) = ensure c (Fault.thrown message) := by
  unfold ensure
  split_ifs <;> rfl

/-- A text is read as without bounds on integers. -/
theorem parsePlain_eq (text : Text) :
    parsePlain text = lift (plainCount <$> PlainDateTime.parse text) := by
  unfold parsePlain PlainDateTime.parse
  rw [lift_map_bind]
  refine bind_congr fun parsed => ?_
  obtain ⟨fields, rest⟩ := parsed
  dsimp only
  rw [lift_map_bind, lift_ensure]
  refine bind_congr fun _ => ?_
  rw [lift_map_bind, lift_ensure]
  refine bind_congr fun _ => ?_
  exact localFromFields_eq fields

theorem parseInstant_eq (text : Text) :
    parseInstant text = lift (instantCount <$> Instant.parse text) := by
  unfold parseInstant Instant.parse
  rw [lift_map_bind]
  refine bind_congr fun parsed => ?_
  obtain ⟨fields, rest⟩ := parsed
  dsimp only
  cases hoffset : splitOffset rest with
  | none => rfl
  | some parts =>
    obtain ⟨sign, hours, minutes⟩ := parts
    obtain ⟨hsign, hhours, hminutes⟩ := splitOffset_bounds hoffset
    dsimp only
    rw [lift_map_bind, lift_ensure]
    refine bind_congr fun _ => ?_
    rw [lift_map_bind, nanosFromFields_eq]
    cases hcivil : Temporal.nanosFromFields fields with
    | error e => rfl
    | ok civil =>
      obtain ⟨day, time⟩ := civil
      obtain ⟨hday, htime⟩ := nanosFromFields_bounds hcivil
      change (ensure _ _ >>= fun _ => sysFromCivilWithOffset (.ofInt day, .ofInt time) _) = _
      rw [lift_ok, ok_bind, lift_map_bind, lift_ensure]
      by_cases hparts : hours ≤ 23 ∧ minutes ≤ 59
      · rw [ensure, if_pos hparts, ok_bind, ok_bind, sysFromCivilWithOffset_eq hday htime
          (by rcases hsign with rfl | rfl <;> omega)]
        exact orThrow_eq_lift _ _ (fun n => (⟨n.1, n.2⟩ : Instant)) _ fun _ => rfl
      · rw [ensure, if_neg hparts]
        rfl

end Parsing

section Decomposition
variable {value : Int64}

/-- Everything that is computed from the count of a date-time or an instant is defined, and the
texts are read back. -/
structure Decomposed (value : Int64) : Prop where
  fields : fieldsFromLocal value ≠ .error .undefined
  addDays : ∀ days, addDays value days ≠ .error .undefined
  isoWeekday : isoWeekday value ≠ .error .undefined
  plainText : ∃ text, plainToText value = .ok text ∧ parsePlain text = .ok value
  instantText : ∃ text, instantToText value = .ok text ∧ parseInstant text = .ok value

theorem parsePlain_toText (value : Int64) : parsePlain (plain value).toText = .ok value := by
  rw [parsePlain_eq, PlainDateTime.parse_toText]
  exact congrArg Except.ok (plainCount_plain value)

theorem parseInstant_toText (value : Int64) : parseInstant (instant value).toText = .ok value := by
  rw [parseInstant_eq, Instant.parse_toText]
  exact congrArg Except.ok (instantCount_instant value)

/-- A count is decomposed and printed without overflow exactly when the start of its day is a count
as well. -/
theorem date_times_decompose (value : Int64) : Decomposed value ↔ StartsInRange value := by
  constructor
  · intro h
    by_contra hstart
    exact h.fields (fieldsFromLocal_undefined hstart)
  · intro h
    refine ⟨?_, fun days => ?_, ?_, ?_, ?_⟩
    · rw [fieldsFromLocal_eq h]
      exact fun h => nomatch h
    · rw [addDays_eq h]
      exact lift_defined _
    · rw [isoWeekday_eq]
      exact fun h => nomatch h
    · exact ⟨_, plainToText_eq h, parsePlain_toText value⟩
    · exact ⟨_, instantToText_eq h, parseInstant_toText value⟩

/-- The first count of all. -/
theorem first_count_not_decomposed : ¬ ∀ value, Decomposed value := by
  intro h
  exact (h minInt64).fields (fieldsFromLocal_undefined (by decide))

end Decomposition

section Construction
variable {fields : CivilFields}

/-- The count that the fields stand for. -/
def countOf (fields : CivilFields) : Int :=
  Date.dayNumber ⟨fields.year, fields.month, fields.day⟩ * nanosPerDay +
    timeNanoseconds fields.hour fields.minute fields.second fields.nanosecond

/-- A civil date and a time of day, whose count is in range. -/
structure Denotes (fields : CivilFields) : Prop where
  date : Date.Valid ⟨fields.year, fields.month, fields.day⟩
  time : PlainDateTime.TimeFits fields
  inRange : InRange (countOf fields)

theorem denotes_fields (p : PlainDateTime) :
    Denotes p.fields ∧ countOf p.fields = p.nanoseconds := by
  have hcount : countOf p.fields = p.nanoseconds := nanoseconds_of_fields p.nanoseconds
  exact ⟨⟨p.date_valid, p.time_fits, hcount ▸ p.inRange⟩, hcount⟩

theorem Denotes.plain (h : Denotes fields) :
    ∃ p : PlainDateTime, p.fields = fields ∧ p.nanoseconds = countOf fields := by
  have htime := PlainDateTime.timeNanoseconds_bounds h.time
  refine ⟨⟨countOf fields, h.inRange⟩, ?_, rfl⟩
  have hday : countOf fields / nanosPerDay =
      Date.dayNumber ⟨fields.year, fields.month, fields.day⟩ := by
    unfold countOf nanosPerDay at *
    omega
  have hrest : countOf fields % nanosPerDay =
      timeNanoseconds fields.hour fields.minute fields.second fields.nanosecond := by
    unfold countOf nanosPerDay at *
    omega
  unfold PlainDateTime.fields Temporal.fieldsFromLocal
  rw [hday, hrest, Date.ofDayNumber_dayNumber h.date,
    timeFields_timeNanoseconds h.time.minute h.time.second h.time.nanosecond]

/-- The fields that denote a date-time are those stored in bytes. -/
theorem Denotes.stored (h : Denotes fields) : fields.stored = fields := by
  obtain ⟨p, rfl, -⟩ := h.plain
  exact p.stored_fields

/-- `from_fields` takes the fields as they are stored. -/
theorem localFromFields_eq_ok {value : Int64} :
    localFromFields fields = .ok value ↔
      Denotes fields.stored ∧ value.toInt = countOf fields.stored := by
  have hfrom : localFromFields fields = .ok value ↔
      ∃ p, PlainDateTime.fromFields fields = .ok p ∧ plainCount p = value := by
    rw [localFromFields_eq, lift, mapError_eq_ok, map_eq_ok]
  rw [hfrom]
  constructor
  · rintro ⟨p, hp, rfl⟩
    obtain ⟨hdenotes, hcount⟩ := denotes_fields p
    rw [PlainDateTime.fromFields_eq_ok.mp hp] at hdenotes hcount
    exact ⟨hdenotes, (toInt_ofInt p.inRange).trans hcount.symm⟩
  · rintro ⟨hdenotes, hvalue⟩
    obtain ⟨p, hp, hcount⟩ := hdenotes.plain
    refine ⟨p, PlainDateTime.fromFields_eq_ok.mpr hp, ?_⟩
    rw [plainCount, hcount, ← hvalue, Int64.ofInt_toInt]

/-- `from_fields` succeeds for the fields of a date-time only, and they are given back. -/
structure FieldsExact (fields : CivilFields) : Prop where
  defined : localFromFields fields ≠ .error .undefined
  accepts : (∃ value, localFromFields fields = .ok value) ↔ Denotes fields
  returns : ∀ value, localFromFields fields = .ok value → fieldsFromLocal value = .ok fields

/-- Fields are handled exactly when the date-time they are stored as does not exist, or when they
are stored unchanged and the start of their day is a count. -/
theorem fields_exact (fields : CivilFields) :
    FieldsExact fields ↔ ¬ Denotes fields.stored ∨
      (fields.stored = fields ∧ -106751 * nanosPerDay ≤ countOf fields) := by
  have hdefined : localFromFields fields ≠ .error .undefined := by
    rw [localFromFields_eq]
    exact lift_defined _
  constructor
  · intro h
    by_cases hstored : Denotes fields.stored
    swap
    · exact .inl hstored
    have hvalue : (Int64.ofInt (countOf fields.stored)).toInt = countOf fields.stored :=
      toInt_ofInt hstored.inRange
    have hok := localFromFields_eq_ok.mpr ⟨hstored, hvalue⟩
    have hsame := (h.accepts.mp ⟨_, hok⟩).stored
    have hback := h.returns _ hok
    refine .inr ⟨hsame, ?_⟩
    by_contra hbefore
    have hstart : ¬ StartsInRange (.ofInt (countOf fields.stored)) := by
      unfold StartsInRange
      rwa [hvalue, hsame]
    rw [fieldsFromLocal_undefined hstart] at hback
    cases hback
  · rintro (hnone | ⟨hsame, hstart⟩)
    · refine ⟨hdefined, ?_, fun value hok => absurd (localFromFields_eq_ok.mp hok).1 hnone⟩
      refine iff_of_false ?_ fun hdenotes => hnone (hdenotes.stored.symm ▸ hdenotes)
      rintro ⟨value, hok⟩
      exact hnone (localFromFields_eq_ok.mp hok).1
    · refine ⟨hdefined, ⟨?_, fun hdenotes => ?_⟩, fun value hok => ?_⟩
      · rintro ⟨value, hok⟩
        exact hsame ▸ (localFromFields_eq_ok.mp hok).1
      · exact ⟨_, localFromFields_eq_ok.mpr ⟨hsame.symm ▸ hdenotes,
          toInt_ofInt (hsame.symm ▸ hdenotes).inRange⟩⟩
      · obtain ⟨hdenotes, hvalue⟩ := localFromFields_eq_ok.mp hok
        rw [hsame] at hdenotes hvalue
        obtain ⟨p, hp, hcount⟩ := hdenotes.plain
        have hin : StartsInRange value := by
          unfold StartsInRange
          rwa [hvalue]
        rw [fieldsFromLocal_eq hin, hvalue, ← hcount, ← hp]
        rfl

/-- Month 257 is taken for January. -/
theorem month_257_accepted :
    (∃ value, localFromFields ⟨2024, 257, 1, 0, 0, 0, 0⟩ = .ok value) ∧
      ¬ Denotes ⟨2024, 257, 1, 0, 0, 0, 0⟩ ∧ ¬ FieldsExact ⟨2024, 257, 1, 0, 0, 0, 0⟩ := by
  have hok : localFromFields ⟨2024, 257, 1, 0, 0, 0, 0⟩ = .ok 1704067200000000000 := by
    decide +kernel
  have hmonth : ¬ Denotes ⟨2024, 257, 1, 0, 0, 0, 0⟩ := by
    intro h
    exact absurd h.date.month.2 (by decide)
  exact ⟨⟨_, hok⟩, hmonth, fun h => hmonth (h.accepts.mp ⟨_, hok⟩)⟩

end Construction

end Checked

end Space2.Temporal
