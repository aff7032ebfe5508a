import Mathlib.Data.Int.Basic
import Mathlib.Tactic.IntervalCases

/-!
# The Gregorian calendar

Days are counted from the first of January 1970. `dayNumber` counts the days
before a date and `ofDayNumber` is its inverse on the valid dates.
-/
namespace Space2.Base

@[ext] structure Date where
  year : Int
  month : Int
  day : Int
  deriving DecidableEq, Repr

def isLeapYear (year : Int) : Bool :=
  year % 4 = 0 && (year % 100 ≠ 0 || year % 400 = 0)

def daysInYear (year : Int) : Int := if isLeapYear year then 366 else 365

theorem isLeapYear_iff (year : Int) :
    isLeapYear year = true ↔ year % 4 = 0 ∧ (year % 100 ≠ 0 ∨ year % 400 = 0) := by
  simp [isLeapYear]

/-- The days of a year before a month. -/
def daysBeforeMonth (year month : Int) : Int :=
  let leap := if isLeapYear year then 1 else 0
  if month ≤ 1 then 0
  else if month = 2 then 31
  else if month = 3 then 59 + leap
  else if month = 4 then 90 + leap
  else if month = 5 then 120 + leap
  else if month = 6 then 151 + leap
  else if month = 7 then 181 + leap
  else if month = 8 then 212 + leap
  else if month = 9 then 243 + leap
  else if month = 10 then 273 + leap
  else if month = 11 then 304 + leap
  else if month = 12 then 334 + leap
  else 365 + leap

def daysInMonth (year month : Int) : Int :=
  daysBeforeMonth year (month + 1) - daysBeforeMonth year month

/-- The days before a year, from the first day of the year one. -/
def daysBeforeYear (year : Int) : Int :=
  365 * (year - 1) + (year - 1) / 4 - (year - 1) / 100 + (year - 1) / 400

theorem daysBeforeYear_succ (year : Int) :
    daysBeforeYear (year + 1) = daysBeforeYear year + daysInYear year := by
  have hleap := isLeapYear_iff year
  unfold daysBeforeYear daysInYear
  split_ifs with h
  · have := hleap.mp h
    omega
  · have : ¬ (year % 4 = 0 ∧ (year % 100 ≠ 0 ∨ year % 400 = 0)) := fun hl => h (hleap.mpr hl)
    omega

theorem daysInYear_pos (year : Int) : 0 < daysInYear year := by
  unfold daysInYear
  split_ifs <;> omega

theorem daysBeforeYear_lt {y z : Int} (h : y < z) : daysBeforeYear y < daysBeforeYear z := by
  unfold daysBeforeYear
  omega

theorem daysBeforeYear_le {y z : Int} (h : y ≤ z) : daysBeforeYear y ≤ daysBeforeYear z := by
  unfold daysBeforeYear
  omega

/-- A day lies in one year only. -/
theorem year_unique {d y z : Int} (hy : daysBeforeYear y ≤ d) (hy' : d < daysBeforeYear (y + 1))
    (hz : daysBeforeYear z ≤ d) (hz' : d < daysBeforeYear (z + 1)) : y = z := by
  rcases Int.lt_trichotomy y z with h | h | h
  · have := daysBeforeYear_le (show y + 1 ≤ z by omega)
    omega
  · exact h
  · have := daysBeforeYear_le (show z + 1 ≤ y by omega)
    omega

/-- The year of a day counted from the first day of the year one. -/
def yearOfDay (d : Int) : Int :=
  let estimate := d * 400 / 146097 + 1
  if d < daysBeforeYear estimate then estimate - 1
  else if daysBeforeYear (estimate + 1) ≤ d then estimate + 1
  else estimate

theorem yearOfDay_spec (d : Int) :
    daysBeforeYear (yearOfDay d) ≤ d ∧ d < daysBeforeYear (yearOfDay d + 1) := by
  have hlow : daysBeforeYear (d * 400 / 146097 + 1 - 1) ≤ d := by
    unfold daysBeforeYear
    omega
  have hhigh : d < daysBeforeYear (d * 400 / 146097 + 1 + 1 + 1) := by
    unfold daysBeforeYear
    omega
  unfold yearOfDay
  dsimp only
  split_ifs with hbefore hafter
  · exact ⟨hlow, by simpa only [Int.sub_add_cancel] using hbefore⟩
  · exact ⟨hafter, hhigh⟩
  · exact ⟨by omega, by omega⟩

section Months

variable {year : Int}

theorem daysBeforeMonth_one : daysBeforeMonth year 1 = 0 := by simp [daysBeforeMonth]

theorem daysBeforeMonth_thirteen : daysBeforeMonth year 13 = daysInYear year := by
  cases hleap : isLeapYear year <;> simp [daysBeforeMonth, daysInYear, hleap]

theorem daysBeforeMonth_step {month : Int} (h : 1 ≤ month) (h' : month ≤ 12) :
    daysBeforeMonth year month + 28 ≤ daysBeforeMonth year (month + 1) ∧
      daysBeforeMonth year (month + 1) ≤ daysBeforeMonth year month + 31 := by
  cases hleap : isLeapYear year <;> interval_cases month <;> simp [daysBeforeMonth, hleap]

theorem daysBeforeMonth_le {m n : Int} (h : 1 ≤ m) (hmn : m ≤ n) (h' : n ≤ 13) :
    daysBeforeMonth year m ≤ daysBeforeMonth year n := by
  induction n, hmn using Int.leInduction with
  | base => exact le_rfl
  | succ n hn ih =>
    have := (@daysBeforeMonth_step year _ (show 1 ≤ n by omega) (by omega)).1
    have := ih (by omega)
    omega

/-- A day of the year lies in one month only. -/
theorem month_unique {d m n : Int} (hm : 1 ≤ m) (hm' : m ≤ 12) (hn : 1 ≤ n) (hn' : n ≤ 12)
    (hdm : daysBeforeMonth year m ≤ d) (hdm' : d < daysBeforeMonth year (m + 1))
    (hdn : daysBeforeMonth year n ≤ d) (hdn' : d < daysBeforeMonth year (n + 1)) : m = n := by
  rcases Int.lt_trichotomy m n with h | h | h
  · have := @daysBeforeMonth_le year _ _ (show 1 ≤ m + 1 by omega)
      (show m + 1 ≤ n by omega) (by omega)
    omega
  · exact h
  · have := @daysBeforeMonth_le year _ _ (show 1 ≤ n + 1 by omega)
      (show n + 1 ≤ m by omega) (by omega)
    omega

end Months

/-- The last of the months up to `month` that starts by the day of the year `d`. -/
def monthOfDay (year d : Int) : Nat → Int
  | 0 => 1
  | month + 1 => if daysBeforeMonth year (month + 1) ≤ d then month + 1 else monthOfDay year d month

theorem monthOfDay_spec {year d : Int} (h : 0 ≤ d) {month : Nat} (hmonth : month ≤ 12)
    (hd : d < daysBeforeMonth year (month + 1)) :
    1 ≤ monthOfDay year d month ∧ monthOfDay year d month ≤ 12 ∧
      daysBeforeMonth year (monthOfDay year d month) ≤ d ∧
        d < daysBeforeMonth year (monthOfDay year d month + 1) := by
  induction month with
  | zero =>
    have hone : daysBeforeMonth year (((0 : Nat) : Int) + 1) = 0 := daysBeforeMonth_one
    omega
  | succ month ih =>
    unfold monthOfDay
    split_ifs with hstart
    · exact ⟨by omega, by omega, hstart, hd⟩
    · exact ih (by omega) (by omega)

namespace Date

structure Valid (date : Date) : Prop where
  month : 1 ≤ date.month ∧ date.month ≤ 12
  day : 1 ≤ date.day ∧ date.day ≤ daysInMonth date.year date.month

instance (date : Date) : Decidable date.Valid :=
  decidable_of_iff ((1 ≤ date.month ∧ date.month ≤ 12) ∧
      1 ≤ date.day ∧ date.day ≤ daysInMonth date.year date.month)
    ⟨fun h => ⟨h.1, h.2⟩, fun h => ⟨h.month, h.day⟩⟩

/-- The day of the year, the first of January being 1. -/
def dayOfYear (date : Date) : Int := daysBeforeMonth date.year date.month + date.day

def dayNumber (date : Date) : Int := daysBeforeYear date.year + date.dayOfYear - 1 - 719162

def ofDayNumber (n : Int) : Date :=
  let d := n + 719162
  let year := yearOfDay d
  let month := monthOfDay year (d - daysBeforeYear year) 12
  ⟨year, month, d - daysBeforeYear year - daysBeforeMonth year month + 1⟩

theorem ofDayNumber_month (n : Int) :
    1 ≤ (ofDayNumber n).month ∧ (ofDayNumber n).month ≤ 12 ∧
      daysBeforeMonth (ofDayNumber n).year (ofDayNumber n).month ≤
        n + 719162 - daysBeforeYear (ofDayNumber n).year ∧
      n + 719162 - daysBeforeYear (ofDayNumber n).year <
        daysBeforeMonth (ofDayNumber n).year ((ofDayNumber n).month + 1) := by
  obtain ⟨hlow, hhigh⟩ := yearOfDay_spec (n + 719162)
  rw [daysBeforeYear_succ, ← daysBeforeMonth_thirteen] at hhigh
  exact monthOfDay_spec (by omega) le_rfl (by push_cast; omega)

theorem valid_ofDayNumber (n : Int) : (ofDayNumber n).Valid := by
  obtain ⟨hone, htwelve, hlow, hhigh⟩ := ofDayNumber_month n
  refine ⟨⟨hone, htwelve⟩, ?_, ?_⟩
  · have : (ofDayNumber n).day = n + 719162 - daysBeforeYear (ofDayNumber n).year -
        daysBeforeMonth (ofDayNumber n).year (ofDayNumber n).month + 1 := rfl
    omega
  · have : (ofDayNumber n).day = n + 719162 - daysBeforeYear (ofDayNumber n).year -
        daysBeforeMonth (ofDayNumber n).year (ofDayNumber n).month + 1 := rfl
    unfold daysInMonth
    omega

@[simp] theorem dayNumber_ofDayNumber (n : Int) : (ofDayNumber n).dayNumber = n := by
  simp only [dayNumber, dayOfYear, ofDayNumber]
  omega

theorem dayOfYear_bounds {date : Date} (h : date.Valid) :
    1 ≤ date.dayOfYear ∧ date.dayOfYear ≤ daysInYear date.year := by
  obtain ⟨⟨hone, htwelve⟩, hday, hlast⟩ := h
  have hstart := @daysBeforeMonth_le date.year _ _ le_rfl hone (by omega)
  have hend := @daysBeforeMonth_le date.year _ _ (show 1 ≤ date.month + 1 by omega)
    (show date.month + 1 ≤ 13 by omega) le_rfl
  rw [daysBeforeMonth_one] at hstart
  rw [daysBeforeMonth_thirteen] at hend
  unfold daysInMonth at hlast
  unfold dayOfYear
  omega

@[simp] theorem ofDayNumber_dayNumber {date : Date} (h : date.Valid) :
    ofDayNumber date.dayNumber = date := by
  obtain ⟨hfirst, hlast⟩ := dayOfYear_bounds h
  have hyear : (ofDayNumber date.dayNumber).year = date.year := by
    obtain ⟨hlow, hhigh⟩ := yearOfDay_spec (date.dayNumber + 719162)
    refine year_unique hlow hhigh ?_ ?_
    · unfold dayNumber
      omega
    · rw [daysBeforeYear_succ]
      unfold dayNumber
      omega
  have hmonth : (ofDayNumber date.dayNumber).month = date.month := by
    obtain ⟨hone, htwelve, hlow, hhigh⟩ := ofDayNumber_month date.dayNumber
    rw [hyear] at hlow hhigh
    refine @month_unique date.year _ _ _ hone htwelve h.month.1 h.month.2 hlow hhigh ?_ ?_
    · have := h.day.1
      unfold dayNumber dayOfYear
      omega
    · have := h.day.2
      unfold daysInMonth at this
      unfold dayNumber dayOfYear
      omega
  have hday : (ofDayNumber date.dayNumber).day = date.day := by
    have : (ofDayNumber date.dayNumber).dayNumber = date.dayNumber := dayNumber_ofDayNumber _
    unfold dayNumber dayOfYear at this
    unfold dayNumber dayOfYear at hyear hmonth
    rw [hyear, hmonth] at this
    unfold dayNumber dayOfYear
    omega
  cases date with
  | mk year month day =>
    cases hdate : ofDayNumber (dayNumber ⟨year, month, day⟩) with
    | mk y m d =>
      rw [hdate] at hyear hmonth hday
      simp only at hyear hmonth hday
      rw [hyear, hmonth, hday]

section Ranges

variable {year month n m : Int}

theorem dayNumber_first : dayNumber ⟨year, 1, 1⟩ = daysBeforeYear year - 719162 := by
  unfold dayNumber dayOfYear
  dsimp only
  rw [daysBeforeMonth_one]
  omega

theorem ofDayNumber_year_iff : (ofDayNumber n).year = year ↔
    dayNumber ⟨year, 1, 1⟩ ≤ n ∧ n < dayNumber ⟨year, 1, 1⟩ + daysInYear year := by
  obtain ⟨hlow, hhigh⟩ := yearOfDay_spec (n + 719162)
  rw [dayNumber_first]
  constructor
  · rintro rfl
    rw [daysBeforeYear_succ] at hhigh
    change daysBeforeYear (yearOfDay (n + 719162)) - 719162 ≤ n ∧
      n < daysBeforeYear (yearOfDay (n + 719162)) - 719162 + daysInYear (yearOfDay (n + 719162))
    omega
  · rintro ⟨hstart, hend⟩
    refine year_unique hlow hhigh (by omega) ?_
    rw [daysBeforeYear_succ]
    omega

theorem ofDayNumber_month_iff (h : 1 ≤ month ∧ month ≤ 12) :
    (ofDayNumber n).year = year ∧ (ofDayNumber n).month = month ↔
      dayNumber ⟨year, month, 1⟩ ≤ n ∧ n < dayNumber ⟨year, month, 1⟩ + daysInMonth year month := by
  constructor
  · rintro ⟨rfl, rfl⟩
    obtain ⟨-, -, hlow, hhigh⟩ := ofDayNumber_month n
    unfold dayNumber dayOfYear daysInMonth
    dsimp only
    omega
  · rintro ⟨hstart, hend⟩
    have hvalid : Valid ⟨year, month, n - dayNumber ⟨year, month, 1⟩ + 1⟩ :=
      ⟨h, by dsimp only; omega, by dsimp only; omega⟩
    have hday : dayNumber ⟨year, month, n - dayNumber ⟨year, month, 1⟩ + 1⟩ = n := by
      unfold dayNumber dayOfYear
      dsimp only
      omega
    have hdate := ofDayNumber_dayNumber hvalid
    rw [hday] at hdate
    rw [hdate]
    exact ⟨rfl, rfl⟩

theorem ofDayNumber_day : (ofDayNumber n).day =
    n - dayNumber ⟨(ofDayNumber n).year, (ofDayNumber n).month, 1⟩ + 1 := by
  have h := dayNumber_ofDayNumber n
  have hparts : dayNumber (ofDayNumber n) =
      dayNumber ⟨(ofDayNumber n).year, (ofDayNumber n).month, 1⟩ + (ofDayNumber n).day - 1 := by
    unfold dayNumber dayOfYear
    dsimp only
    omega
  omega

theorem ofDayNumber_dayOfYear : (ofDayNumber n).dayOfYear =
    n - dayNumber ⟨(ofDayNumber n).year, 1, 1⟩ + 1 := by
  have h := dayNumber_ofDayNumber n
  rw [dayNumber_first]
  unfold dayNumber at h
  omega

theorem year_le (h : n ≤ m) : (ofDayNumber n).year ≤ (ofDayNumber m).year := by
  obtain ⟨hlow, -⟩ := yearOfDay_spec (n + 719162)
  obtain ⟨-, hhigh⟩ := yearOfDay_spec (m + 719162)
  by_contra hlt
  have := daysBeforeYear_le (show (ofDayNumber m).year + 1 ≤ (ofDayNumber n).year by omega)
  change daysBeforeYear (yearOfDay (m + 719162) + 1) ≤ daysBeforeYear (yearOfDay (n + 719162))
    at this
  omega

theorem month_le (h : n ≤ m) (hyear : (ofDayNumber n).year = (ofDayNumber m).year) :
    (ofDayNumber n).month ≤ (ofDayNumber m).month := by
  obtain ⟨-, htwelve, hlow, -⟩ := ofDayNumber_month n
  obtain ⟨hone, -, -, hhigh⟩ := ofDayNumber_month m
  by_contra hlt
  have := @daysBeforeMonth_le ((ofDayNumber m).year) _ _
    (show 1 ≤ (ofDayNumber m).month + 1 by omega)
    (show (ofDayNumber m).month + 1 ≤ (ofDayNumber n).month by omega) (by omega)
  rw [hyear] at hlow
  omega

end Ranges

/-- Dates are ordered by this number as they are by their days. -/
def key (date : Date) : Int := date.year * 10000 + date.month * 100 + date.day

theorem key_lt_key {n m : Int} (h : n < m) : (ofDayNumber n).key < (ofDayNumber m).key := by
  have hn := valid_ofDayNumber n
  have hm := valid_ofDayNumber m
  have hlastn := @daysBeforeMonth_step (ofDayNumber n).year _ hn.month.1 hn.month.2
  have hlastm := @daysBeforeMonth_step (ofDayNumber m).year _ hm.month.1 hm.month.2
  have hdayn := hn.day
  have hdaym := hm.day
  unfold daysInMonth at hdayn hdaym
  have hmonthn := hn.month
  have hmonthm := hm.month
  have hyear := year_le h.le
  unfold key
  rcases hyear.lt_or_eq with hless | hsame
  · omega
  · rcases (month_le h.le hsame).lt_or_eq with hmonth | hmonth
    · omega
    · have hn' := @ofDayNumber_day n
      have hm' := @ofDayNumber_day m
      rw [hsame, hmonth] at hn'
      omega

theorem key_le_key {n m : Int} : (ofDayNumber n).key ≤ (ofDayNumber m).key ↔ n ≤ m := by
  constructor
  · intro h
    by_contra hlt
    exact absurd (key_lt_key (show m < n by omega)) (not_lt.mpr h)
  · intro h
    rcases h.lt_or_eq with hless | rfl
    · exact (key_lt_key hless).le
    · exact le_rfl

/-- The day of the week, Monday being 1. -/
def isoWeekday (n : Int) : Int := (n + 3) % 7 + 1

theorem isoWeekday_bounds (n : Int) : 1 ≤ isoWeekday n ∧ isoWeekday n ≤ 7 := by
  unfold isoWeekday
  omega

end Date

end Space2.Base
