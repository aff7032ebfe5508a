import Space2.Base.LuaValue
import Space2.Base.Marks
import Space2.Temporal.DayTime

/-!
# Business days

A business calendar asks a source of holidays whether a day is one. Saturdays and Sundays are no
business days. A source knows the holidays of some years only and refuses the others, and so do
the operations on business days.
-/
namespace Space2.Temporal
open Base

structure HolidaySeed (Holiday : Type) where
  holidaysForYear : String → Int → Except String (List Holiday)
  holidayOnDate : String → Text → Except String (Option Holiday)

namespace BusinessCalendar

def weekendIsoWeekdays : List Int := [6, 7]

section Options

def optionKeys : Lua → List String
  | .table items fields =>
    ((List.range items.length).map fun index => toString (index + 1)) ++ fields.map Prod.fst
  | _ => []

def validateOptions (options : Lua) (allowed : List String) (context : String) :
    Except String Lua := do
  ensure (options.isTable = true)
    ("temporal business-calendar " ++ context ++ " options must be a table")
  (optionKeys options).forM fun key =>
    ensure (key ∈ allowed) ("unsupported temporal business-calendar option: " ++ key)
  pure options

def stringValue (value : Option Lua) (message : String) : Except String String :=
  match value with
  | some (.string text) => .ok text
  | _ => .error message

def requireJurisdiction (options : Lua) (context : String) : Except String String := do
  let options ← validateOptions options ["jurisdiction"] context
  stringValue (options.field "jurisdiction")
    "temporal business-calendar jurisdiction must be a string"

/-- `{:jurisdiction jurisdiction}` -/
def inJurisdiction (jurisdiction : String) : Lua :=
  .record [("jurisdiction", .string jurisdiction)]

@[simp] theorem requireJurisdiction_inJurisdiction (jurisdiction context : String) :
    requireJurisdiction (inJurisdiction jurisdiction) context = .ok jurisdiction := rfl

end Options

section Days
variable {Holiday : Type} (seed : HolidaySeed Holiday)

def plainAddDays (plain : PlainDateTime) (days : Int) : Except String PlainDateTime :=
  (plain.addDays days).mapError
    ("invalid temporal business-calendar plain date-time: " ++ ·)

def validateSupportedYear (jurisdiction : String) (year : Int) : Except String Int := do
  let _ ← seed.holidaysForYear jurisdiction year
  pure year

def supportedPlainFields (plain : PlainDateTime) (jurisdiction : String) :
    Except String CivilFields := do
  let _ ← validateSupportedYear seed jurisdiction plain.fields.year
  pure plain.fields

def supportedIsoDate (plain : PlainDateTime) (jurisdiction : String) : Except String Text := do
  let fields ← supportedPlainFields seed plain jurisdiction
  pure (padded 4 fields.year ++ '-' :: (padded 2 fields.month ++ '-' :: padded 2 fields.day))

def supportedDateKey (plain : PlainDateTime) (jurisdiction : String) : Except String Int := do
  let fields ← supportedPlainFields seed plain jurisdiction
  pure (fields.year * 10000 + fields.month * 100 + fields.day)

def isHoliday (plain : PlainDateTime) (options : Lua) : Except String Bool := do
  let jurisdiction ← requireJurisdiction options "is-holiday"
  let date ← supportedIsoDate seed plain jurisdiction
  let holiday ← seed.holidayOnDate jurisdiction date
  pure holiday.isSome

def isBusinessDay (plain : PlainDateTime) (options : Lua) : Except String Bool := do
  let jurisdiction ← requireJurisdiction options "is-business-day"
  let _ ← supportedPlainFields seed plain jurisdiction
  if plain.isoWeekday ∈ weekendIsoWeekdays then pure false
  else
    let holiday ← isHoliday seed plain (inJurisdiction jurisdiction)
    pure !holiday

inductive Direction
  | forward | backward
  deriving DecidableEq, Repr

def Direction.days : Direction → Int
  | .forward => 1
  | .backward => -1

/-- The days from a date-time to the end of the range it moves to. -/
def room (direction : Direction) (plain : PlainDateTime) : Nat :=
  match direction with
  | .forward => (106751 - plain.dayNumber).toNat
  | .backward => (plain.dayNumber + 106752).toNat

theorem plainAddDays_eq_ok {plain next : PlainDateTime} {days : Int} :
    plainAddDays plain days = .ok next ↔
      next.dayNumber = plain.dayNumber + days ∧ next.timeOfDay = plain.timeOfDay := by
  rw [← PlainDateTime.addDays_eq_ok, plainAddDays]
  cases plain.addDays days with
  | error e => exact iff_of_false (fun h => by cases h) (fun h => by cases h)
  | ok found => exact Iff.rfl

theorem room_lt {direction : Direction} {plain next : PlainDateTime}
    (h : plainAddDays plain direction.days = .ok next) :
    room direction next < room direction plain := by
  obtain ⟨hday, -⟩ := plainAddDays_eq_ok.mp h
  have hbounds := next.dayNumber_bounds
  cases direction with
  | forward =>
    have hstep : next.dayNumber = plain.dayNumber + 1 := hday
    dsimp only [room]
    omega
  | backward =>
    have hstep : next.dayNumber = plain.dayNumber + -1 := hday
    dsimp only [room]
    omega

/-- `math.abs`, the least integer staying as it is -/
def luaAbs (n : Int) : Int := if n = -2 ^ 63 then n else |n|

/-- The loop of `add-business-days`. -/
def addLoop (jurisdiction : String) (direction : Direction) (remaining : Int)
    (current : PlainDateTime) : Except String PlainDateTime :=
  if 0 < remaining then
    match _h : plainAddDays current direction.days with
    | .error e => .error e
    | .ok next =>
      match isBusinessDay seed next (inJurisdiction jurisdiction) with
      | .error e => .error e
      | .ok business =>
        addLoop jurisdiction direction (if business then remaining - 1 else remaining) next
  else .ok current
termination_by room direction current
decreasing_by exact room_lt (by assumption)

/-- The count is an integer. -/
def addBusinessDays (plain : PlainDateTime) (count : Int) (options : Lua) :
    Except String PlainDateTime := do
  let jurisdiction ← requireJurisdiction options "add-business-days"
  let _ ← supportedPlainFields seed plain jurisdiction
  addLoop seed jurisdiction (if count < 0 then .backward else .forward) (luaAbs count) plain

/-- The loop of `business-days-between`. -/
def countLoop (jurisdiction : String) (endKey : Int) (count : Nat) (current : PlainDateTime) :
    Except String Nat :=
  match supportedDateKey seed current jurisdiction with
  | .error e => .error e
  | .ok key =>
    if key < endKey then
      match isBusinessDay seed current (inJurisdiction jurisdiction) with
      | .error e => .error e
      | .ok business =>
        match _h : plainAddDays current Direction.forward.days with
        | .error e => .error e
        | .ok next => countLoop jurisdiction endKey (if business then count + 1 else count) next
    else .ok count
termination_by room .forward current
decreasing_by exact room_lt (by assumption)

def businessDaysBetween (start finish : PlainDateTime) (options : Lua) : Except String Nat := do
  let jurisdiction ← requireJurisdiction options "business-days-between"
  let startKey ← supportedDateKey seed start jurisdiction
  let endKey ← supportedDateKey seed finish jurisdiction
  ensure (startKey ≤ endKey) "descending temporal business-day range"
  countLoop seed jurisdiction endKey 0 start

end Days

section Loops
variable {Holiday : Type} {seed : HolidaySeed Holiday} {jurisdiction : String}

/-- One round of the loop. -/
theorem addLoop_eq (direction : Direction) (remaining : Int) (current : PlainDateTime) :
    addLoop seed jurisdiction direction remaining current =
      if 0 < remaining then do
        let next ← plainAddDays current direction.days
        let business ← isBusinessDay seed next (inJurisdiction jurisdiction)
        addLoop seed jurisdiction direction (if business then remaining - 1 else remaining) next
      else .ok current := by
  rw [addLoop]
  split_ifs
  · split
    · rename_i e he
      rw [he]
      rfl
    · rename_i next hnext
      rw [hnext]
      change _ = isBusinessDay seed next (inJurisdiction jurisdiction) >>= _
      cases isBusinessDay seed next (inJurisdiction jurisdiction) with
      | error e => rfl
      | ok business => rfl
  · rfl

theorem countLoop_eq (endKey : Int) (count : Nat) (current : PlainDateTime) :
    countLoop seed jurisdiction endKey count current = (do
      let key ← supportedDateKey seed current jurisdiction
      if key < endKey then do
        let business ← isBusinessDay seed current (inJurisdiction jurisdiction)
        let next ← plainAddDays current Direction.forward.days
        countLoop seed jurisdiction endKey (if business then count + 1 else count) next
      else pure count) := by
  rw [countLoop]
  cases supportedDateKey seed current jurisdiction with
  | error e => rfl
  | ok key =>
    change (if _ then _ else _) = if _ then _ else _
    split_ifs
    · cases isBusinessDay seed current (inJurisdiction jurisdiction) with
      | error e => rfl
      | ok business =>
        change _ = plainAddDays current Direction.forward.days >>= _
        dsimp only
        split
        · rename_i e he
          rw [he]
          rfl
        · rename_i next hnext
          rw [hnext]
          rfl
    · rfl

/-- Two additions are one. -/
theorem addLoop_add {direction : Direction} {n m : Int} (hn : 0 ≤ n) (hm : 0 ≤ m)
    (current : PlainDateTime) :
    (addLoop seed jurisdiction direction n current >>=
        addLoop seed jurisdiction direction m) =
      addLoop seed jurisdiction direction (n + m) current := by
  induction hroom : room direction current using Nat.strong_induction_on
    generalizing n current with
  | _ size ih =>
    rcases hn.eq_or_lt with rfl | hpos
    · rw [addLoop_eq direction 0, if_neg (lt_irrefl 0), zero_add]
      rfl
    · rw [addLoop_eq direction n, if_pos hpos, addLoop_eq direction (n + m),
        if_pos (by omega)]
      cases hnext : plainAddDays current direction.days with
      | error e => rfl
      | ok next =>
        cases hbusiness : isBusinessDay seed next (inJurisdiction jurisdiction) with
        | error e =>
          change (isBusinessDay seed next _ >>= _) >>= _ = isBusinessDay seed next _ >>= _
          rw [hbusiness]
          rfl
        | ok business =>
          change (isBusinessDay seed next _ >>= _) >>= _ = isBusinessDay seed next _ >>= _
          rw [hbusiness]
          have hsmaller := hroom ▸ room_lt hnext
          cases business with
          | true =>
            have hrest := ih _ hsmaller (n := n - 1) (by omega) next rfl
            rw [show n - 1 + m = n + m - 1 by omega] at hrest
            exact hrest
          | false => exact ih _ hsmaller (n := n) hn next rfl

end Loops

section ByDay
variable {Holiday : Type} (seed : HolidaySeed Holiday) (jurisdiction : String)

/-- The day that the operations know to be a business day. -/
def businessDays : Set ℤ :=
  {day | ∃ plain : PlainDateTime, plain.dayNumber = day ∧
    isBusinessDay seed plain (inJurisdiction jurisdiction) = .ok true}

def SupportedYear (year : Int) : Prop :=
  ∃ holidays, seed.holidaysForYear jurisdiction year = .ok holidays

/-- A day of which the operations can say whether it is a business day. -/
def Known (day : Int) : Prop :=
  ∀ plain : PlainDateTime, plain.dayNumber = day →
    ∃ business, isBusinessDay seed plain (inJurisdiction jurisdiction) = .ok business

variable {seed jurisdiction} {p q : PlainDateTime}

theorem supportedIsoDate_congr (h : p.dayNumber = q.dayNumber) :
    supportedIsoDate seed p jurisdiction = supportedIsoDate seed q jurisdiction := by
  have hdate : p.date = q.date := congrArg Date.ofDayNumber h
  simp only [supportedIsoDate, supportedPlainFields, validateSupportedYear, bind_assoc, pure_bind,
    PlainDateTime.fields_year, PlainDateTime.fields_month, PlainDateTime.fields_day, hdate]

/-- The time of day does not matter. -/
theorem isBusinessDay_congr (h : p.dayNumber = q.dayNumber) (options : Lua) :
    isBusinessDay seed p options = isBusinessDay seed q options := by
  have hdate : p.date = q.date := congrArg Date.ofDayNumber h
  have hweekday : p.isoWeekday = q.isoWeekday := congrArg Date.isoWeekday h
  simp only [isBusinessDay, isHoliday, supportedIsoDate_congr h, supportedPlainFields,
    validateSupportedYear, bind_assoc, pure_bind, PlainDateTime.fields_year, hdate, hweekday]

theorem mem_businessDays :
    p.dayNumber ∈ businessDays seed jurisdiction ↔
      isBusinessDay seed p (inJurisdiction jurisdiction) = .ok true := by
  constructor
  · rintro ⟨q, hday, hbusiness⟩
    rwa [isBusinessDay_congr hday] at hbusiness
  · intro hbusiness
    exact ⟨p, rfl, hbusiness⟩

theorem known_iff : Known seed jurisdiction p.dayNumber ↔
    ∃ business, isBusinessDay seed p (inJurisdiction jurisdiction) = .ok business := by
  constructor
  · intro h
    exact h p rfl
  · rintro ⟨business, h⟩ q hday
    exact ⟨business, by rw [isBusinessDay_congr hday, h]⟩

theorem supportedDateKey_eq_ok {key : Int} :
    supportedDateKey seed p jurisdiction = .ok key ↔
      SupportedYear seed jurisdiction p.date.year ∧ p.date.key = key := by
  simp only [supportedDateKey, supportedPlainFields, validateSupportedYear, bind_assoc, pure_bind,
    bind_eq_ok, pure_eq_ok, PlainDateTime.fields_year, PlainDateTime.fields_month,
    PlainDateTime.fields_day]
  constructor
  · rintro ⟨holidays, hsupported, rfl⟩
    exact ⟨⟨holidays, hsupported⟩, rfl⟩
  · rintro ⟨⟨holidays, hsupported⟩, rfl⟩
    exact ⟨holidays, hsupported, rfl⟩

theorem Known.supportedYear (h : Known seed jurisdiction p.dayNumber) :
    SupportedYear seed jurisdiction p.date.year := by
  obtain ⟨business, hbusiness⟩ := known_iff.mp h
  simp only [isBusinessDay, supportedPlainFields, validateSupportedYear, bind_assoc, pure_bind,
    requireJurisdiction_inJurisdiction, bind_eq_ok, Except.ok.injEq, PlainDateTime.fields_year]
    at hbusiness
  obtain ⟨_, rfl, holidays, hsupported, -⟩ := hbusiness
  exact ⟨holidays, hsupported⟩

end ByDay

section Counting
variable {Holiday : Type} {seed : HolidaySeed Holiday} {jurisdiction : String}

/-- What the loop of `add-business-days` passes on its way forward. -/
structure Passed (seed : HolidaySeed Holiday) (jurisdiction : String) (remaining : Int)
    (current last : PlainDateTime) : Prop where
  le : current.dayNumber ≤ last.dayNumber
  timeOfDay : last.timeOfDay = current.timeOfDay
  known : ∀ day, current.dayNumber < day → day ≤ last.dayNumber → Known seed jurisdiction day
  count : (Marks.after (businessDays seed jurisdiction) current.dayNumber last.dayNumber : Int) =
    remaining
  last : (remaining = 0 ∧ last = current) ∨ last.dayNumber ∈ businessDays seed jurisdiction

/-- One day adds its own mark. -/
theorem after_step {current next last : PlainDateTime} {business : Bool}
    (hday : next.dayNumber = current.dayNumber + 1) (hle : next.dayNumber ≤ last.dayNumber)
    (h : isBusinessDay seed next (inJurisdiction jurisdiction) = .ok business) :
    Marks.after (businessDays seed jurisdiction) current.dayNumber last.dayNumber =
      (if business then 1 else 0) +
        Marks.after (businessDays seed jurisdiction) next.dayNumber last.dayNumber := by
  rw [← Marks.after_add (b := next.dayNumber) (by omega) hle,
    Marks.after_eq_between _ current.dayNumber, ← hday]
  congr 1
  cases business with
  | true => exact Marks.between_one_of_mem (mem_businessDays.mpr h)
  | false =>
    refine Marks.between_one_of_notMem fun hmem => ?_
    cases h.symm.trans (mem_businessDays.mp hmem)

theorem addLoop_passed {remaining : Int} (hremaining : 0 ≤ remaining)
    {current last : PlainDateTime}
    (h : addLoop seed jurisdiction .forward remaining current = .ok last) :
    Passed seed jurisdiction remaining current last := by
  induction hroom : room .forward current using Nat.strong_induction_on
    generalizing remaining current with
  | _ size ih =>
    rw [addLoop_eq] at h
    split_ifs at h with hpos
    · obtain ⟨next, hnext, h⟩ := bind_eq_ok.mp h
      obtain ⟨business, hbusiness, h⟩ := bind_eq_ok.mp h
      obtain ⟨hday, htime⟩ := plainAddDays_eq_ok.mp hnext
      have hstep : next.dayNumber = current.dayNumber + 1 := hday
      have hrest : 0 ≤ if business then remaining - 1 else remaining := by
        split_ifs <;> omega
      have hpassed := ih _ (hroom ▸ room_lt hnext) hrest h rfl
      have hcount := after_step hstep hpassed.le hbusiness
      have hknown : Known seed jurisdiction next.dayNumber := known_iff.mpr ⟨business, hbusiness⟩
      have hrestCount := hpassed.count
      refine ⟨by have := hpassed.le; omega, hpassed.timeOfDay.trans htime, ?_, ?_, ?_⟩
      · intro day hlow hhigh
        rcases (show next.dayNumber ≤ day by omega).eq_or_lt with rfl | hlater
        · exact hknown
        · exact hpassed.known day hlater hhigh
      · cases business <;> simp only [if_true, Bool.false_eq_true, if_false] at hcount hrestCount <;>
          omega
      · rcases hpassed.last with ⟨hdone, rfl⟩ | hlast
        · have htrue : business = true := by
            by_contra hfalse
            rw [if_neg hfalse] at hdone
            omega
          exact .inr (mem_businessDays.mpr (htrue ▸ hbusiness))
        · exact .inr hlast
    · obtain rfl := Except.ok.inj h
      have hzero : remaining = 0 := by omega
      refine ⟨le_rfl, rfl, fun day hlow hhigh => by omega, ?_, .inl ⟨hzero, rfl⟩⟩
      rw [Marks.after_self, hzero]
      rfl

/-- A day on the way to one that exists at the same time of day. -/
theorem plainAddDays_isOk {current moved : PlainDateTime} {days total : Int} (hlow : 0 ≤ days)
    (hhigh : days ≤ total) (h : plainAddDays current total = .ok moved) :
    ∃ next, plainAddDays current days = .ok next := by
  obtain ⟨hday, htime⟩ := plainAddDays_eq_ok.mp h
  have hcurrent := current.nanoseconds_eq
  have hmoved := moved.nanoseconds_eq
  obtain ⟨hfirst, -⟩ := current.inRange
  obtain ⟨-, hlast⟩ := moved.inRange
  have htimes := current.timeOfDay_bounds
  unfold nanosPerDay at hcurrent hmoved htimes
  have hrange : InRange (current.nanoseconds + days * 86400000000000) := ⟨by omega, by omega⟩
  refine ⟨⟨_, hrange⟩, plainAddDays_eq_ok.mpr ⟨?_, ?_⟩⟩
  · show (current.nanoseconds + days * 86400000000000) / nanosPerDay = _
    unfold nanosPerDay
    omega
  · show (current.nanoseconds + days * 86400000000000) % nanosPerDay = _
    unfold nanosPerDay
    omega

theorem between_step {current next finish : PlainDateTime} {business : Bool}
    (hday : next.dayNumber = current.dayNumber + 1) (hle : next.dayNumber ≤ finish.dayNumber)
    (h : isBusinessDay seed current (inJurisdiction jurisdiction) = .ok business) :
    Marks.between (businessDays seed jurisdiction) current.dayNumber finish.dayNumber =
      (if business then 1 else 0) +
        Marks.between (businessDays seed jurisdiction) next.dayNumber finish.dayNumber := by
  rw [← Marks.between_add (b := next.dayNumber) (by omega) hle, hday]
  congr 1
  cases business with
  | true => exact Marks.between_one_of_mem (mem_businessDays.mpr h)
  | false =>
    refine Marks.between_one_of_notMem fun hmem => ?_
    cases h.symm.trans (mem_businessDays.mp hmem)

/-- The loop of `business-days-between` counts the business days from its start up to the end. -/
theorem countLoop_eq_ok {current finish : PlainDateTime} (hle : current.dayNumber ≤ finish.dayNumber)
    (hsupported : SupportedYear seed jurisdiction finish.date.year) {count total : Nat} :
    countLoop seed jurisdiction finish.date.key count current = .ok total ↔
      (∃ moved, plainAddDays current (finish.dayNumber - current.dayNumber) = .ok moved) ∧
        (∀ day, current.dayNumber ≤ day → day < finish.dayNumber → Known seed jurisdiction day) ∧
          total = count +
            Marks.between (businessDays seed jurisdiction) current.dayNumber finish.dayNumber := by
  induction hroom : room .forward current using Nat.strong_induction_on
    generalizing current count with
  | _ size ih =>
    rw [countLoop_eq]
    by_cases hless : current.dayNumber < finish.dayNumber
    · have hkey : current.date.key < finish.date.key := Date.key_lt_key hless
      have hcounted : ∀ {next business}, plainAddDays current Direction.forward.days = .ok next →
          isBusinessDay seed current (inJurisdiction jurisdiction) = .ok business →
          (countLoop seed jurisdiction finish.date.key (if business then count + 1 else count) next =
              .ok total ↔
            (∃ moved, plainAddDays next (finish.dayNumber - next.dayNumber) = .ok moved) ∧
              (∀ day, next.dayNumber ≤ day → day < finish.dayNumber →
                Known seed jurisdiction day) ∧
              total = count +
                Marks.between (businessDays seed jurisdiction) current.dayNumber
                  finish.dayNumber) := by
        intro next business hnext hbusiness
        have hday : next.dayNumber = current.dayNumber + 1 := (plainAddDays_eq_ok.mp hnext).1
        rw [ih _ (hroom ▸ room_lt hnext) (by omega) rfl, between_step hday (by omega) hbusiness]
        cases business <;> simp only [if_true, Bool.false_eq_true, if_false, zero_add, add_assoc]
      constructor
      · intro h
        obtain ⟨key, hreached, h⟩ := bind_eq_ok.mp h
        obtain ⟨-, rfl⟩ := supportedDateKey_eq_ok.mp hreached
        rw [if_pos hkey] at h
        obtain ⟨business, hbusiness, h⟩ := bind_eq_ok.mp h
        obtain ⟨next, hnext, h⟩ := bind_eq_ok.mp h
        obtain ⟨hday, htime⟩ := plainAddDays_eq_ok.mp hnext
        have hstep : next.dayNumber = current.dayNumber + 1 := hday
        obtain ⟨⟨moved, hmoved⟩, hknown, htotal⟩ := (hcounted hnext hbusiness).mp h
        obtain ⟨hmovedDay, hmovedTime⟩ := plainAddDays_eq_ok.mp hmoved
        refine ⟨⟨moved, plainAddDays_eq_ok.mpr ⟨by omega, hmovedTime.trans htime⟩⟩, ?_, htotal⟩
        intro day hlow hhigh
        rcases hlow.eq_or_lt with rfl | hlater
        · exact known_iff.mpr ⟨business, hbusiness⟩
        · exact hknown day (by omega) hhigh
      · rintro ⟨⟨moved, hmoved⟩, hknown, htotal⟩
        have hfirst := hknown current.dayNumber le_rfl hless
        obtain ⟨business, hbusiness⟩ := known_iff.mp hfirst
        obtain ⟨next, hnext⟩ := @plainAddDays_isOk _ _ 1 _ (by omega) (by omega) hmoved
        obtain ⟨hday, htime⟩ := plainAddDays_eq_ok.mp hnext
        obtain ⟨hmovedDay, hmovedTime⟩ := plainAddDays_eq_ok.mp hmoved
        refine bind_eq_ok.mpr ⟨_, supportedDateKey_eq_ok.mpr ⟨hfirst.supportedYear, rfl⟩, ?_⟩
        rw [if_pos hkey]
        refine bind_eq_ok.mpr ⟨business, hbusiness, bind_eq_ok.mpr ⟨next, hnext, ?_⟩⟩
        refine (hcounted hnext hbusiness).mpr ⟨⟨moved, ?_⟩, ?_, htotal⟩
        · exact plainAddDays_eq_ok.mpr ⟨by omega, hmovedTime.trans htime.symm⟩
        · exact fun day hlow hhigh => hknown day (by omega) hhigh
    · have hsame : current.dayNumber = finish.dayNumber := by omega
      have hdate : current.date = finish.date := congrArg Date.ofDayNumber hsame
      have hreached : supportedDateKey seed current jurisdiction = .ok finish.date.key :=
        supportedDateKey_eq_ok.mpr ⟨hdate ▸ hsupported, by rw [hdate]⟩
      have hmoved : plainAddDays current (finish.dayNumber - current.dayNumber) = .ok current :=
        plainAddDays_eq_ok.mpr ⟨by omega, rfl⟩
      rw [hreached, hsame, Marks.between_self]
      change (if finish.date.key < finish.date.key then _ else pure count) = Except.ok total ↔ _
      rw [if_neg (lt_irrefl _), pure_eq_ok]
      constructor
      · rintro rfl
        exact ⟨⟨current, hsame ▸ hmoved⟩, fun day hlow hhigh => by omega, rfl⟩
      · rintro ⟨-, -, rfl⟩
        rfl

end Counting

section Operations
variable {Holiday : Type} {seed : HolidaySeed Holiday} {options : Lua} {jurisdiction : String}
  {plain reached start middle finish : PlainDateTime}

/-- The operation that asks is named in the errors only. -/
theorem requireJurisdiction_eq_ok {context : String} :
    requireJurisdiction options context = .ok jurisdiction ↔
      options.isTable = true ∧ (∀ key ∈ optionKeys options, key ∈ ["jurisdiction"]) ∧
        options.field "jurisdiction" = some (.string jurisdiction) := by
  unfold requireJurisdiction validateOptions
  simp only [bind_eq_ok, ensure_eq_ok, pure_eq_ok]
  constructor
  · rintro ⟨_, ⟨_, htable, _, hallowed, rfl⟩, hvalue⟩
    have hkeys := fun key hkey => ensure_eq_ok.mp (forM_eq_ok.mp hallowed key hkey)
    unfold stringValue at hvalue
    split at hvalue
    · rename_i text htext
      obtain rfl := Except.ok.inj hvalue
      exact ⟨htable, hkeys, htext⟩
    · cases hvalue
  · rintro ⟨htable, hkeys, hvalue⟩
    refine ⟨options, ⟨(), htable, (), ?_, rfl⟩, by rw [hvalue]; rfl⟩
    exact forM_eq_ok.mpr fun key hkey => ensure_eq_ok.mpr (hkeys key hkey)

theorem isBusinessDay_of_options {context : String}
    (h : requireJurisdiction options context = .ok jurisdiction) :
    isBusinessDay seed plain options = isBusinessDay seed plain (inJurisdiction jurisdiction) := by
  have hday : requireJurisdiction options "is-business-day" = .ok jurisdiction :=
    requireJurisdiction_eq_ok.mpr (requireJurisdiction_eq_ok.mp h)
  unfold isBusinessDay
  rw [hday, requireJurisdiction_inJurisdiction]

theorem supportedPlainFields_eq_ok {fields : CivilFields} :
    supportedPlainFields seed plain jurisdiction = .ok fields ↔
      SupportedYear seed jurisdiction plain.date.year ∧ plain.fields = fields := by
  simp only [supportedPlainFields, validateSupportedYear, bind_assoc, pure_bind, bind_eq_ok,
    pure_eq_ok, PlainDateTime.fields_year]
  constructor
  · rintro ⟨holidays, hsupported, rfl⟩
    exact ⟨⟨holidays, hsupported⟩, rfl⟩
  · rintro ⟨⟨holidays, hsupported⟩, rfl⟩
    exact ⟨holidays, hsupported, rfl⟩

theorem luaAbs_natCast (n : ℕ) : luaAbs n = n := by
  unfold luaAbs
  rw [if_neg (by omega), Nat.abs_cast]

theorem addBusinessDays_natCast (plain : PlainDateTime) (n : ℕ) (options : Lua) :
    addBusinessDays seed plain n options = (do
      let jurisdiction ← requireJurisdiction options "add-business-days"
      let _ ← supportedPlainFields seed plain jurisdiction
      addLoop seed jurisdiction .forward n plain) := by
  unfold addBusinessDays
  rw [luaAbs_natCast, if_neg (by omega)]

theorem addBusinessDays_eq_ok {n : ℕ} : addBusinessDays seed plain n options = .ok reached ↔
    ∃ jurisdiction, requireJurisdiction options "add-business-days" = .ok jurisdiction ∧
      SupportedYear seed jurisdiction plain.date.year ∧
        addLoop seed jurisdiction .forward n plain = .ok reached := by
  rw [addBusinessDays_natCast]
  simp only [bind_eq_ok, supportedPlainFields_eq_ok]
  constructor
  · rintro ⟨jurisdiction, hjurisdiction, _, ⟨hsupported, -⟩, h⟩
    exact ⟨jurisdiction, hjurisdiction, hsupported, h⟩
  · rintro ⟨jurisdiction, hjurisdiction, hsupported, h⟩
    exact ⟨jurisdiction, hjurisdiction, _, ⟨hsupported, rfl⟩, h⟩

theorem Passed.supportedYear {remaining : Int}
    (h : Passed seed jurisdiction remaining start finish)
    (hstart : SupportedYear seed jurisdiction start.date.year) :
    SupportedYear seed jurisdiction finish.date.year := by
  rcases h.le.eq_or_lt with hsame | hless
  · have hdate : start.date = finish.date := congrArg Date.ofDayNumber hsame
    exact hdate ▸ hstart
  · exact (h.known _ hless le_rfl).supportedYear

/-- Steps may be taken in two parts, whether they succeed or fail. -/
theorem addBusinessDays_add (plain : PlainDateTime) (n m : ℕ) (options : Lua) :
    (addBusinessDays seed plain n options >>= fun reached =>
        addBusinessDays seed reached m options) =
      addBusinessDays seed plain ((n + m : ℕ) : Int) options := by
  cases hoptions : requireJurisdiction options "add-business-days" with
  | error e => simp only [addBusinessDays_natCast, hoptions, bind, Except.bind]
  | ok jurisdiction =>
    cases hfields : supportedPlainFields seed plain jurisdiction with
    | error e => simp only [addBusinessDays_natCast, hoptions, hfields, bind, Except.bind]
    | ok fields =>
      have hstart := (supportedPlainFields_eq_ok.mp hfields).1
      have hsum : ((n + m : ℕ) : Int) = n + m := by omega
      have hfirst : ∀ k : ℕ, addBusinessDays seed plain k options =
          addLoop seed jurisdiction .forward k plain := fun k => by
        simp only [addBusinessDays_natCast, hoptions, hfields, bind, Except.bind]
      rw [hfirst, hfirst, hsum, ← addLoop_add (by omega) (by omega)]
      cases hreached : addLoop seed jurisdiction .forward n plain with
      | error e => rfl
      | ok reached =>
        have hpassed := addLoop_passed (by omega) hreached
        have hagain : supportedPlainFields seed reached jurisdiction = .ok reached.fields :=
          supportedPlainFields_eq_ok.mpr ⟨hpassed.supportedYear hstart, rfl⟩
        change addBusinessDays seed reached m options = addLoop seed jurisdiction .forward m reached
        simp only [addBusinessDays_natCast, hoptions, hagain, bind, Except.bind]

theorem businessDaysBetween_eq_ok {total : ℕ} :
    businessDaysBetween seed start finish options = .ok total ↔
      ∃ jurisdiction, requireJurisdiction options "business-days-between" = .ok jurisdiction ∧
        (SupportedYear seed jurisdiction start.date.year ∧
          SupportedYear seed jurisdiction finish.date.year) ∧
        start.dayNumber ≤ finish.dayNumber ∧
        (∃ moved, plainAddDays start (finish.dayNumber - start.dayNumber) = .ok moved) ∧
        (∀ day, start.dayNumber ≤ day → day < finish.dayNumber → Known seed jurisdiction day) ∧
        total = Marks.between (businessDays seed jurisdiction) start.dayNumber
          finish.dayNumber := by
  unfold businessDaysBetween
  simp only [bind_eq_ok, supportedDateKey_eq_ok, ensure_eq_ok]
  constructor
  · rintro ⟨jurisdiction, hjurisdiction, _, ⟨hstart, rfl⟩, _, ⟨hfinish, rfl⟩, _, hkeys, hloop⟩
    have hle : start.dayNumber ≤ finish.dayNumber := Date.key_le_key.mp hkeys
    obtain ⟨hmoved, hknown, htotal⟩ := (countLoop_eq_ok hle hfinish).mp hloop
    exact ⟨jurisdiction, hjurisdiction, ⟨hstart, hfinish⟩, hle, hmoved, hknown, by omega⟩
  · rintro ⟨jurisdiction, hjurisdiction, ⟨hstart, hfinish⟩, hle, hmoved, hknown, htotal⟩
    exact ⟨jurisdiction, hjurisdiction, _, ⟨hstart, rfl⟩, _, ⟨hfinish, rfl⟩, (),
      Date.key_le_key.mpr hle,
      (countLoop_eq_ok hle hfinish).mpr ⟨hmoved, hknown, by omega⟩⟩

/-- The days that the loop of `add-business-days` passes are counted again from a business day. -/
theorem between_of_passed {n : ℕ} (h : Passed seed jurisdiction n plain reached)
    (hplain : plain.dayNumber ∈ businessDays seed jurisdiction) :
    Marks.between (businessDays seed jurisdiction) plain.dayNumber reached.dayNumber = n := by
  have hcount := h.count
  rcases h.last with ⟨hzero, rfl⟩ | hlast
  · rw [Marks.between_self]
    omega
  · rw [Marks.between_eq_after hplain hlast h.le]
    omega

theorem businessDaysBetween_addBusinessDays {n : ℕ}
    (hplain : isBusinessDay seed plain options = .ok true)
    (h : addBusinessDays seed plain n options = .ok reached) :
    businessDaysBetween seed plain reached options = .ok n := by
  obtain ⟨jurisdiction, hjurisdiction, hstart, hloop⟩ := addBusinessDays_eq_ok.mp h
  have hpassed := addLoop_passed (by omega) hloop
  rw [isBusinessDay_of_options hjurisdiction] at hplain
  have hmem := mem_businessDays.mpr hplain
  refine businessDaysBetween_eq_ok.mpr ⟨jurisdiction,
    requireJurisdiction_eq_ok.mpr (requireJurisdiction_eq_ok.mp hjurisdiction),
    ⟨hstart, hpassed.supportedYear hstart⟩, hpassed.le, ⟨reached, ?_⟩, ?_,
    (between_of_passed hpassed hmem).symm⟩
  · exact plainAddDays_eq_ok.mpr ⟨by omega, hpassed.timeOfDay⟩
  · intro day hlow hhigh
    rcases hlow.eq_or_lt with rfl | hlater
    · exact known_iff.mpr ⟨true, hplain⟩
    · exact hpassed.known day hlater hhigh.le

theorem jurisdiction_unique {context : String} {other : String}
    (h : requireJurisdiction options context = .ok jurisdiction)
    (hother : requireJurisdiction options context = .ok other) : jurisdiction = other :=
  Except.ok.inj (h.symm.trans hother)

/-- Ranges that meet add up where the last day exists at the time of day of the first. -/
theorem businessDaysBetween_add {before later : ℕ}
    (hbefore : businessDaysBetween seed start middle options = .ok before)
    (hlater : businessDaysBetween seed middle finish options = .ok later)
    (hmoved : ∃ moved, start.addDays (finish.dayNumber - start.dayNumber) = .ok moved) :
    businessDaysBetween seed start finish options = .ok (before + later) := by
  obtain ⟨jurisdiction, hjurisdiction, ⟨hstart, -⟩, hle, -, hknown, rfl⟩ :=
    businessDaysBetween_eq_ok.mp hbefore
  obtain ⟨other, hother, ⟨-, hfinish⟩, hle', -, hknown', rfl⟩ :=
    businessDaysBetween_eq_ok.mp hlater
  obtain rfl := jurisdiction_unique hjurisdiction hother
  obtain ⟨moved, hmoved⟩ := hmoved
  refine businessDaysBetween_eq_ok.mpr ⟨jurisdiction, hjurisdiction, ⟨hstart, hfinish⟩,
    hle.trans hle', ⟨moved, ?_⟩, ?_, Marks.between_add hle hle'⟩
  · exact plainAddDays_eq_ok.mpr (PlainDateTime.addDays_eq_ok.mp hmoved)
  · intro day hlow hhigh
    rcases lt_or_ge day middle.dayNumber with hfirst | hsecond
    · exact hknown day hlow hfirst
    · exact hknown' day hsecond hhigh

/-- A range that ends on an earlier day than it starts is refused. -/
theorem businessDaysBetween_descending
    (hjurisdiction : requireJurisdiction options "business-days-between" = .ok jurisdiction)
    (hstart : SupportedYear seed jurisdiction start.date.year)
    (hfinish : SupportedYear seed jurisdiction finish.date.year)
    (h : finish.dayNumber < start.dayNumber) :
    businessDaysBetween seed start finish options =
      .error "descending temporal business-day range" := by
  have hkey : ¬ start.date.key ≤ finish.date.key := not_le.mpr (Date.key_lt_key h)
  have hstartKey := supportedDateKey_eq_ok.mpr ⟨hstart, rfl⟩
  have hfinishKey := supportedDateKey_eq_ok.mpr ⟨hfinish, rfl⟩
  unfold businessDaysBetween
  rw [hjurisdiction]
  simp only [hstartKey, hfinishKey, ensure, if_neg hkey, bind, Except.bind]

/-- Business days add up: `add-business-days` may be taken in two parts, from a business day
`business-days-between` counts the days that were added, adjacent ranges add up, and a range
counts its days in ascending order only. -/
theorem business_days_add_up (seed : HolidaySeed Holiday) (options : Lua) :
    (∀ (plain : PlainDateTime) (n m : ℕ),
      (addBusinessDays seed plain n options >>= fun reached =>
        addBusinessDays seed reached m options) =
          addBusinessDays seed plain ((n + m : ℕ) : Int) options) ∧
    (∀ (plain reached : PlainDateTime) (n : ℕ), isBusinessDay seed plain options = .ok true →
      addBusinessDays seed plain n options = .ok reached →
        businessDaysBetween seed plain reached options = .ok n) ∧
    (∀ (start middle finish : PlainDateTime) (before later : ℕ),
      businessDaysBetween seed start middle options = .ok before →
      businessDaysBetween seed middle finish options = .ok later →
      (∃ moved, start.addDays (finish.dayNumber - start.dayNumber) = .ok moved) →
        businessDaysBetween seed start finish options = .ok (before + later)) ∧
    ∀ (start finish : PlainDateTime) (count : ℕ),
      businessDaysBetween seed start finish options = .ok count →
        start.dayNumber < finish.dayNumber →
          businessDaysBetween seed finish start options =
            .error "descending temporal business-day range" := by
  refine ⟨fun plain n m => addBusinessDays_add plain n m options,
    fun plain reached n hplain h => businessDaysBetween_addBusinessDays hplain h,
    fun start middle finish before later hbefore hlater hmoved =>
      businessDaysBetween_add hbefore hlater hmoved, ?_⟩
  intro start finish count hcount hless
  obtain ⟨jurisdiction, hjurisdiction, ⟨hstart, hfinish⟩, -⟩ := businessDaysBetween_eq_ok.mp hcount
  exact businessDaysBetween_descending hjurisdiction hfinish hstart hless

/-- A source that knows every year and no holiday. -/
def noHolidays : HolidaySeed Unit where
  holidaysForYear _ _ := .ok []
  holidayOnDate _ _ := .ok none

theorem between_noHolidays {total : ℕ} :
    businessDaysBetween noHolidays start finish (inJurisdiction "US-FED") = .ok total ↔
      start.dayNumber ≤ finish.dayNumber ∧
        (∃ moved, plainAddDays start (finish.dayNumber - start.dayNumber) = .ok moved) ∧
        total = Marks.between (businessDays noHolidays "US-FED") start.dayNumber
          finish.dayNumber := by
  have hyear : ∀ year, SupportedYear noHolidays "US-FED" year := fun year => ⟨[], rfl⟩
  have hknown : ∀ day, Known noHolidays "US-FED" day := by
    intro day plain hday
    simp only [isBusinessDay, isHoliday, requireJurisdiction_inJurisdiction, supportedIsoDate,
      supportedPlainFields, validateSupportedYear, noHolidays, bind, Except.bind, pure, Except.pure]
    split_ifs <;> exact ⟨_, rfl⟩
  constructor
  · intro h
    obtain ⟨other, hother, -, hle, hmoved, -, htotal⟩ := businessDaysBetween_eq_ok.mp h
    obtain rfl := jurisdiction_unique (requireJurisdiction_inJurisdiction "US-FED" _) hother
    exact ⟨hle, hmoved, htotal⟩
  · rintro ⟨hle, hmoved, htotal⟩
    exact businessDaysBetween_eq_ok.mpr ⟨"US-FED", rfl, ⟨hyear _, hyear _⟩, hle, hmoved,
      fun day _ _ => hknown day, htotal⟩

/-- A range taken backwards has no count, and the start of a range may not exist at its time of
day on the last day of all. -/
theorem ranges_without_count :
    (¬ ∀ (start finish : PlainDateTime) (count : ℕ),
      businessDaysBetween noHolidays start finish (inJurisdiction "US-FED") = .ok count →
        ∃ back : ℕ,
          businessDaysBetween noHolidays finish start (inJurisdiction "US-FED") = .ok back ∧
            (back : Int) = -count) ∧
    ¬ ∀ (start middle finish : PlainDateTime) (before later : ℕ),
      businessDaysBetween noHolidays start middle (inJurisdiction "US-FED") = .ok before →
      businessDaysBetween noHolidays middle finish (inJurisdiction "US-FED") = .ok later →
        businessDaysBetween noHolidays start finish (inJurisdiction "US-FED") =
          .ok (before + later) := by
  let start : PlainDateTime := ⟨106749 * nanosPerDay + 86399999999999, by decide⟩
  let middle : PlainDateTime := ⟨106750 * nanosPerDay, by decide⟩
  let finish : PlainDateTime := ⟨106751 * nanosPerDay, by decide⟩
  have hmiddle : plainAddDays middle (finish.dayNumber - middle.dayNumber) = .ok finish :=
    plainAddDays_eq_ok.mpr ⟨by decide, by decide⟩
  have hlater := between_noHolidays.mpr
    ⟨(by decide : middle.dayNumber ≤ finish.dayNumber), ⟨finish, hmiddle⟩, rfl⟩
  constructor
  · intro h
    obtain ⟨back, hback, -⟩ := h middle finish _ hlater
    exact absurd (between_noHolidays.mp hback).1 (by decide)
  · intro h
    have hstart : plainAddDays start (middle.dayNumber - start.dayNumber) =
        .ok ⟨106750 * nanosPerDay + 86399999999999, by decide⟩ :=
      plainAddDays_eq_ok.mpr ⟨by decide, by decide⟩
    have hbefore := between_noHolidays.mpr
      ⟨(by decide : start.dayNumber ≤ middle.dayNumber), ⟨_, hstart⟩, rfl⟩
    obtain ⟨-, ⟨moved, hmoved⟩, -⟩ :=
      between_noHolidays.mp (h start middle finish _ _ hbefore hlater)
    obtain ⟨hday, htime⟩ := plainAddDays_eq_ok.mp hmoved
    have hlast := moved.inRange.2
    have hvalue := moved.nanoseconds_eq
    have hmovedDay : moved.dayNumber = 106751 := hday.trans (by decide)
    have hmovedTime : moved.timeOfDay = 86399999999999 := htime.trans (by decide)
    rw [hmovedDay, hmovedTime] at hvalue
    unfold nanosPerDay at hvalue
    omega

end Operations

end BusinessCalendar

end Space2.Temporal
